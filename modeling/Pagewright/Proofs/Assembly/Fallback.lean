import Pagewright.Proofs.Assembly.Mute
import Pagewright.Proofs.Assembly.Sealed
import Pagewright.Proofs.Lowering.Restored

/-! # The page that is put together instead

If a page cannot be printed, it is put together from its source: its regions are guarded, its
include directives become tags, and the outputs that were recorded take the places of its tags.  The
text that was printed had gone through all passes, without its comments.  The two copies of a page
are compared part by part (`Sheet`).  Where comments start no tag and directives keep the tags in
their arguments, each part is laid in tiles that play the same roles in both copies, so that the tags
of both are the same tiles of the same parts (`fallback_agrees`).

Main definitions: `Counterpart`, `Parallel`, `Sheet`, `Sheet.copy`, `Sheet.lowered`. -/

namespace Pagewright.Assembly

open Text Directive Lowering

/-! ### Stretches that hold tags alike -/

/-- Tiles that play the same role. -/
structure Counterpart (x y : Text) : Prop where
  left : Tile x
  right : Tile y
  role : roleOf x = roleOf y

/-- Stretches that are laid in such tiles, one for one. -/
def Parallel (x y : Text) : Prop :=
  ∃ xs ys : List Text, List.Forall₂ Counterpart xs ys ∧ xs.flatten = x ∧ ys.flatten = y

theorem Counterpart.parallel {x y : Text} (h : Counterpart x y) : Parallel x y :=
  ⟨[x], [y], .cons h .nil, List.append_nil x, List.append_nil y⟩

theorem Mute.counterpart {x y : Text} (hx : Mute x) (hy : Mute y) : Counterpart x y :=
  ⟨hx.tile, hy.tile, hx.role.trans hy.role.symm⟩

theorem Parallel.append {x y u v : Text} (h : Parallel x y) (h' : Parallel u v) :
    Parallel (x ++ u) (y ++ v) := by
  obtain ⟨xs, ys, tiles, rfl, rfl⟩ := h
  obtain ⟨us, vs, tiles', rfl, rfl⟩ := h'
  exact ⟨xs ++ us, ys ++ vs, List.rel_append tiles tiles', List.flatten_append, List.flatten_append⟩

/-- A stretch gives way to another that keeps what is written in it between ends in which neither a
tag nor a region begins. -/
def Keeps (x y : Text) : Prop :=
  ∃ (u v u' v' : Text) (inside : List Text), Mute u ∧ Mute v ∧ Mute u' ∧ Mute v' ∧
    (∀ t ∈ inside, Tile t) ∧ x = u ++ (inside.flatten ++ v) ∧ y = u' ++ (inside.flatten ++ v')

theorem Mute.keeps {x y : Text} (hx : Mute x) (hy : Mute y) : Keeps x y :=
  ⟨x, [], y, [], [], hx, mute_nil, hy, mute_nil, nofun, (List.append_nil x).symm,
    (List.append_nil y).symm⟩

theorem Keeps.parallel {x y : Text} (h : Keeps x y) : Parallel x y := by
  obtain ⟨u, v, u', v', inside, hu, hv, hu', hv', tiled, rfl, rfl⟩ := h
  have same : List.Forall₂ Counterpart inside inside :=
    List.forall₂_same.mpr fun t ht => ⟨tiled t ht, tiled t ht, rfl⟩
  exact (hu.counterpart hu').parallel.append
    (.append ⟨inside, inside, same, rfl, rfl⟩ (hv.counterpart hv').parallel)

/-- The tiles of the parts of two texts. -/
theorem exists_tiles {xs ys : List Text} (h : List.Forall₂ Parallel xs ys) :
    ∃ xss yss : List (List Text), xss.map List.flatten = xs ∧ yss.map List.flatten = ys ∧
      List.Forall₂ (List.Forall₂ Counterpart) xss yss := by
  induction h with
  | nil => exact ⟨[], [], rfl, rfl, .nil⟩
  | cons here _ ih =>
    obtain ⟨us, vs, tiles, rfl, rfl⟩ := here
    obtain ⟨xss, yss, rfl, rfl, later⟩ := ih
    exact ⟨us :: xss, vs :: yss, rfl, rfl, .cons tiles later⟩

/-- **Texts that are laid in counterparts have the same tags**, tile by tile. -/
theorem includeTags_counterparts {xs ys : List Text} (h : List.Forall₂ Counterpart xs ys) :
    includeTags xs.flatten = (extents (ys.map roleOf)).map (Extent.tag xs) ∧
      includeTags ys.flatten = (extents (ys.map roleOf)).map (Extent.tag ys) := by
  have roles : xs.map roleOf = ys.map roleOf := by
    rw [← List.forall₂_eq_eq_eq, List.forall₂_map_left_iff, List.forall₂_map_right_iff]
    exact h.imp fun x y pair => pair.role
  have left : ∀ x ∈ xs, Tile x :=
    ((List.forall₂_and_left (p := Tile) _ _).mp (h.imp fun x y pair => And.intro pair.left pair)).1
  have right : ∀ y ∈ ys, Tile y :=
    ((List.forall₂_and_left (p := Tile) _ _).mp
      (List.Forall₂.flip (h.imp fun x y pair => And.intro pair.right pair))).1
  rw [← roles]
  refine ⟨includeTags_tiles left, ?_⟩
  rw [roles]
  exact includeTags_tiles right

/-! ### The pass for includes -/

/-- What the pass for includes writes for a part, if it is an include directive that can be read. -/
def inclusion? (p : Part) : Option Text :=
  (p.mark? 0).bind fun d => if includeNames.contains d.name then includeTag? d else none

/-- What the pass for includes makes of a part. -/
def copied (p : Part) : Part := ((inclusion? p).map Part.text).getD p

theorem rewritePart_includes (p : Part) :
    (rewritePart includeNames includeStep () p).1 = copied p := by
  unfold rewritePart copied inclusion? includeStep
  cases hp : p.mark? 0 with
  | none => rfl
  | some d =>
    simp only [Option.bind_some]
    split
    · cases includeTag? d <;> rfl
    · rfl

/-- Relations of the parts of a page hold of what comes of them one after the other. -/
theorem forall₂_comp {α β γ : Type} {R : α → β → Prop} {S : β → γ → Prop} {T : α → γ → Prop}
    (h : ∀ x y z, R x y → S y z → T x z) : ∀ {xs : List α} {ys : List β} {zs : List γ},
      List.Forall₂ R xs ys → List.Forall₂ S ys zs → List.Forall₂ T xs zs
  | _, _, _, .nil, .nil => .nil
  | _, _, _, .cons r rs, .cons s ss => .cons (h _ _ _ r s) (forall₂_comp h rs ss)

/-- A part is no directive, or an include directive. -/
def Awaits (p : Part) : Prop := ∀ n, p.named? = some n → n ∈ includeNames

theorem awaits_text (t : Text) : Awaits (.text t) := fun n hn => absurd hn.symm (Option.some_ne_none n)

/-- Texts and include directives are what the first passes leave alone. -/
theorem finished_awaits (ds : Delimiters) (ps : List Part) :
    List.Forall₂ (fun p q => Awaits p → q = copied p) ps (finished ds ps) := by
  have unseen : ∀ n ∈ includeNames, Unseen n ∧ n ∉ stackNames := by
    unfold Unseen
    decide
  have first : List.Forall₂ (fun p q => Awaits p → q = p) ps (advanced ds ps) := by
    refine walk_forall₂ _ fun s p _ awaits => ?_
    cases hp : p.named? with
    | some n => rw [lowered_other ds s hp (unseen n (awaits n hp)).1]
    | none =>
      cases p with
      | text t => rfl
      | word n => cases hp
      | call n gap args => cases hp
  have second : List.Forall₂ (fun p q => Awaits p → q = p) (advanced ds ps)
      (walkFrom (rewriteAt stackNames (stackMarker? (shownAll (advanced ds ps)))) 0 []
        (advanced ds ps)).1 := by
    refine walkFrom_forall₂ (I := fun _ => True) (fun pos s _ p _ => ⟨?_, trivial⟩) trivial
    intro awaits
    unfold rewriteAt
    cases hp : p.mark? pos with
    | none => rfl
    | some d =>
      have other : stackNames.contains d.name = false := by
        rw [Bool.eq_false_iff, Ne, List.contains_iff_mem]
        exact (unseen _ (awaits _ (name_mark? hp))).2
      simp only [other, Bool.false_eq_true, if_false]
  have both := forall₂_comp (T := fun p r => Awaits p → r = p) (fun p q r hpq hqr awaits => by
    obtain rfl := hpq awaits
    exact hqr awaits) first second
  refine forall₂_comp (fun p q r hpq hqr awaits => ?_) both
    (walk_forall₂ (R := fun p q => q = copied p) () fun _ p _ => rewritePart_includes p)
  rw [hqr, hpq awaits]

/-! ### Pages in parts -/

/-- A part without the comments in it. -/
def bared : Part → Part
  | .text t => .text (stripComments t)
  | p => p

/-- A text that stands in the open: a tile without comments, or a comment in which no tag is
written. -/
def Clear (t : Text) : Prop :=
  '\x00' ∉ t ∧ (stripComments t = t ∧ Tile t ∨ stripComments t = [] ∧ Mute t)

/-- What may stand for a part behind all passes. -/
inductive Calm (p q : Part) : Prop
  /-- The part is no directive. -/
  | unnamed (none : p.named? = none)
  /-- The part is an include directive, and its tag starts no region. -/
  | inclusion {new : Text} (answer : inclusion? p = some new)
    (free : ∀ c ∈ "\x00@".toList, c ∉ new) (untagged : Untagged "raw" new)
  /-- The part is another directive, and what stands for it keeps the tags in its argument. -/
  | kept (answer : inclusion? p = none) (visible : '\x00' ∉ q.shown) (keeps : Keeps p.shown q.shown)

/-- A page that is made of parts, with gaps for its regions, a part of its own for each comment and
for each doubled at sign. -/
structure Sheet (ds : Delimiters) where
  source : Text
  regions : List Region
  parts : List Part
  visible : '\x00' ∉ source
  /-- The page as it is written reads as its parts. -/
  written : (pieces region? (escapeMarkers source)).map content = contents regions parts
  /-- The page without its comments reads as its parts without them. -/
  uncommented : (pieces region? (escapeMarkers (stripComments source))).map content =
    contents regions (parts.map bared)
  counted : regions.length = parts.count gap
  enclosed : ∀ inner, .verbatim inner ∈ regions → Untagged "endraw" inner
  laid : ∀ t, .text t ∈ parts → t = gapText ∨ t = atSentinel ∨ Clear t
  legible : Legible (numberedParts 0 parts)
  stripped : Legible (numberedParts 0 (parts.map bared))
  passed : Legible (advanced ds (numberedParts 0 (parts.map bared)))
  calm : List.Forall₂ Calm (numberedParts 0 (parts.map bared))
    (finished ds (numberedParts 0 (parts.map bared)))
  unforged : Unforged ((finished ds (numberedParts 0 (parts.map bared))).map Part.shown)

namespace Sheet

variable {ds : Delimiters} (b : Sheet ds)

/-- What is put back for the regions of a page in the text that is printed. -/
def back : List Text := b.regions.map (Region.restored true)

/-- The page that is put together if it cannot be printed, part by part, with its regions guarded
and its include directives rewritten. -/
def copy : List Text := (numberedParts 0 b.parts).map fun p => (copied p).shown

/-- The page that is printed, part by part. -/
def lowered : List Text :=
  (finished ds (numberedParts 0 (b.parts.map bared))).map fun q => putBack b.back q.shown

/-- A part as it is written, and without comments. -/
inductive Standing (back : List Text) : Part → Part → Prop
  | text {t : Text} (visible : '\x00' ∉ t) (tile : Tile t) : Standing back (.text t) (.text t)
  | comment {t : Text} (mute : Mute t) : Standing back (.text t) (.text [])
  | sentinel : Standing back (.text atSentinel) (.text atSentinel)
  | region {n : Nat} {r : Text} (known : back[n]? = some r) :
    Standing back (.text (guardToken n)) (.text (guardToken n))
  | directive {p : Part} (named : p.named? ≠ none) : Standing back p p

variable {b}

/-- No part without its comments becomes a gap. -/
theorem bared_eq_gap {p : Part}
    (laid : ∀ t, p = .text t → t = gapText ∨ t = atSentinel ∨ Clear t) :
    bared p = gap ↔ p = gap := by
  have same : bared gap = gap := by decide
  refine ⟨fun h => ?_, fun h => h ▸ same⟩
  cases p with
  | word m => exact h
  | call m g a => exact h
  | text t =>
    obtain rfl | rfl | ⟨-, ⟨same, -⟩ | ⟨empty, -⟩⟩ := laid t rfl
    · rfl
    · exact absurd h (by decide)
    · rwa [bared, same] at h
    · rw [bared, empty] at h
      exact absurd h (by decide)

theorem count_bared {ps : List Part}
    (laid : ∀ t, .text t ∈ ps → t = gapText ∨ t = atSentinel ∨ Clear t) :
    (ps.map bared).count gap = ps.count gap := by
  rw [List.count_eq_countP, List.countP_map, List.count_eq_countP]
  refine List.countP_congr fun p hp => ?_
  simp only [Function.comp, beq_iff_eq]
  exact bared_eq_gap fun t ht => laid t (ht ▸ hp)

theorem standing_parts {back : List Text} {ps : List Part} (n : Nat)
    (laid : ∀ t, .text t ∈ ps → t = gapText ∨ t = atSentinel ∨ Clear t)
    (known : n + ps.count gap ≤ back.length) :
    List.Forall₂ (Standing back) (numberedParts n ps) (numberedParts n (ps.map bared)) := by
  induction ps generalizing n with
  | nil => exact .nil
  | cons p ps ih =>
    have others : ∀ t, .text t ∈ ps → t = gapText ∨ t = atSentinel ∨ Clear t :=
      fun t ht => laid t (List.mem_cons_of_mem p ht)
    rw [List.map_cons]
    by_cases hp : p = gap
    · have same : bared gap = gap := by decide
      rw [hp, List.count_cons_self] at known
      have own : n < back.length := by omega
      rw [hp, same, numberedParts, numberedParts, if_pos rfl]
      exact .cons (.region (List.getElem?_eq_getElem own)) (ih (n + 1) others (by omega))
    · rw [List.count_cons_of_ne hp] at known
      have own : ∀ t, p = .text t → t = gapText ∨ t = atSentinel ∨ Clear t :=
        fun t ht => laid t (ht ▸ List.mem_cons_self)
      rw [numberedParts, numberedParts, if_neg hp, if_neg (mt (bared_eq_gap own).mp hp)]
      refine .cons ?_ (ih n others known)
      cases p with
      | word m => exact .directive (Option.some_ne_none m)
      | call m g a => exact .directive (Option.some_ne_none m)
      | text t =>
        obtain rfl | rfl | ⟨visible, ⟨same, tile⟩ | ⟨empty, mute⟩⟩ := own t rfl
        · exact absurd rfl hp
        · have same : bared (.text atSentinel) = .text atSentinel := by decide
          rw [same]
          exact .sentinel
        · rw [bared, same]
          exact .text visible tile
        · rw [bared, empty]
          exact .comment mute

theorem mute_guardToken (n : Nat) : Mute (guardToken n) := by
  have digits : ∀ c ∈ "<\x7b@".toList, c ∉ guardLead ∧ c.isDigit = false ∧ c ≠ '\x00' :=
    forall_mem_text (by decide)
  refine mute_bare fun c hc => ?_
  obtain ⟨lead, letter, other⟩ := digits c hc
  rw [guardToken_eq]
  refine not_mem_append (not_mem_append lead fun h => ?_) (by simpa using other)
  rw [isDigit_of_mem_ofNat h] at letter
  cases letter

theorem parallel_of_standing {back : List Text}
    (silent : ∀ r ∈ back, Tile r ∧ roleOf r = .silent) {p p' q : Part}
    (standing : Standing back p p') (calm : Calm p' q) (kept : Awaits p' → q = copied p') :
    Parallel (copied p).shown (putBack back q.shown) ∧ Restorable back q.shown := by
  have text : ∀ {t : Text}, q = copied (.text t) → q = .text t := fun h => h
  cases standing with
  | @text t visible tile =>
    obtain rfl := text (kept (awaits_text _))
    have same : putBack back t = t := putBack_visible visible
    rw [Part.shown, same]
    exact ⟨Counterpart.parallel ⟨tile, tile, rfl⟩, .visible visible⟩
  | comment mute =>
    obtain rfl := text (kept (awaits_text _))
    have same : putBack back [] = [] := putBack_visible List.not_mem_nil
    rw [Part.shown, same]
    exact ⟨(mute.counterpart mute_nil).parallel, .visible List.not_mem_nil⟩
  | sentinel =>
    obtain rfl := text (kept (awaits_text _))
    have mute : Mute atSentinel := mute_bare (forall_mem_text (by decide))
    have block : putBack back atSentinel = atBlock.shown :=
      putBack_sentinel.trans shown_atBlock.symm
    rw [Part.shown, block]
    exact ⟨Counterpart.parallel ⟨mute.tile, .block atBlock, mute.role⟩, .sentinel⟩
  | @region n r known =>
    obtain rfl := text (kept (awaits_text _))
    obtain ⟨tile, role⟩ := silent r (List.mem_of_getElem? known)
    have mute : Mute (guardToken n) := mute_guardToken n
    have put : putBack back (guardToken n) = r := by rw [putBack_placeholder, known]; rfl
    rw [Part.shown, put]
    exact ⟨Counterpart.parallel ⟨mute.tile, tile, mute.role.trans role.symm⟩, .placeholder known⟩
  | directive named =>
    cases calm with
    | unnamed none => exact absurd none named
    | @inclusion new answer free untagged =>
      have visible : '\x00' ∉ new := free '\x00' (by decide)
      obtain ⟨d, hd, e⟩ := Option.bind_eq_some_iff.mp answer
      have tag : copied p = .text new := by rw [copied, answer]; rfl
      split at e
      · next listed =>
        have awaits : Awaits p := fun n hn => by
          rw [name_mark? hd] at hn
          exact Option.some.inj hn ▸ List.contains_iff_mem.mp listed
        obtain rfl := (kept awaits).trans tag
        have tile := tile_includeTag? e (free '@' (by decide)) untagged
        rw [tag, Part.shown, putBack_visible visible]
        exact ⟨Counterpart.parallel ⟨tile, tile, rfl⟩, .visible visible⟩
      · cases e
    | kept answer visible keeps =>
      have stays : copied p = p := by rw [copied, answer]; rfl
      rw [stays, putBack_visible visible]
      exact ⟨keeps.parallel, .visible visible⟩

variable (b)

theorem counted_bared : b.regions.length = (b.parts.map bared).count gap :=
  b.counted.trans (count_bared b.laid).symm

/-- What is put back for a region is a tile that tells nothing. -/
theorem silent_back : ∀ r ∈ b.back, (Tile r ∧ roleOf r = .silent) ∧ '\x00' ∉ r := by
  intro r hr
  obtain ⟨x, hx, rfl⟩ := List.mem_map.mp hr
  have found : x ∈ hits region? (escapeMarkers (stripComments b.source)) := by
    have value : ∀ p : Piece Region, p.value? = (content p).getRight? := fun p => by cases p <;> rfl
    rw [← regions_contents b.counted_bared, ← b.uncommented, List.filterMap_map] at hx
    rw [hits_eq]
    rwa [List.filterMap_congr fun p _ => value p]
  have plain : '\x00' ∉ stripComments b.source := fun h => b.visible (mem_of_mem_replaceHits h)
  obtain ⟨block, e, visible⟩ | ⟨inner, rfl, visible⟩ := visible_restored plain found
  · rw [e]
    exact ⟨⟨.block block, roleOf_block block⟩, visible⟩
  · have untagged : Untagged "endraw" (unescapeMarkers inner) :=
      (b.enclosed inner hx).replaceAll lettered_endraw mark_sentinel mark_doubled
    rw [Region.restored, if_pos rfl]
    by_cases empty : unescapeMarkers inner = []
    · rw [empty]
      exact ⟨⟨mute_nil.tile, mute_nil.role⟩, List.not_mem_nil⟩
    · rw [← RawBlock.shown_protecting untagged empty]
      exact ⟨⟨.block _, roleOf_block _⟩, RawBlock.visible _ visible⟩

/-- What comes of the parts in both copies. -/
theorem alike : List.Forall₂
    (fun p q => Parallel (copied p).shown (putBack b.back q.shown) ∧ Restorable b.back q.shown)
    (numberedParts 0 b.parts) (finished ds (numberedParts 0 (b.parts.map bared))) := by
  have known : 0 + b.parts.count gap ≤ b.back.length := by
    rw [back, List.length_map, b.counted, Nat.zero_add]
  have standing := standing_parts 0 b.laid known
  have later := (finished_awaits ds (numberedParts 0 (b.parts.map bared))).mp
    (fun p q kept calm => And.intro kept calm) b.calm
  refine forall₂_comp ?_ standing later
  intro p p' q hp hq
  exact parallel_of_standing (fun r hr => (b.silent_back r hr).1) hp hq.2 hq.1

theorem parallel : List.Forall₂ Parallel b.copy b.lowered := by
  rw [copy, lowered, List.forall₂_map_left_iff, List.forall₂_map_right_iff]
  exact b.alike.imp fun p q h => h.1

theorem shownAll_eq (ps : List Part) : shownAll ps = (ps.map Part.shown).flatten :=
  List.flatMap_def

/-- **The page that is printed**, part by part. -/
theorem lowered_source : transform ds b.source = .ok b.lowered.flatten := by
  have plain : '\x00' ∉ stripComments b.source := fun h => b.visible (mem_of_mem_replaceHits h)
  have forms : ∀ x ∈ (finished ds (numberedParts 0 (b.parts.map bared))).map Part.shown,
      Restorable b.back x := by
    refine List.forall_mem_map.mpr ?_
    exact ((List.forall₂_and_left _ _).mp (List.Forall₂.flip (b.alike.imp fun p q h => h.symm))).1
  have whole := putBack_flatten (fun r hr => (b.silent_back r hr).2) forms b.unforged
  rw [transform_eq_rewritten ds b.visible, Lowering.rewritten,
    guardRegions_contents b.uncommented b.counted_bared true,
    rewriteAll_shownAll ds b.stripped b.passed, shownAll_eq]
  exact whole.trans (congrArg (fun xs => Except.ok (List.flatten xs)) (List.map_map ..))

/-- **The page that is put together in the end**, part by part. -/
theorem copy_source : rewriteIncludes (guardRegions (escapeMarkers b.source) false).1 =
    b.copy.flatten := by
  have each : ∀ ps : List Part,
      (walk (rewritePart includeNames includeStep) () ps).1 = ps.map copied := by
    intro ps
    induction ps with
    | nil => rfl
    | cons p ps ih => rw [walk, rewritePart_includes, ih, List.map_cons]
  have walked := congrArg Prod.fst
    (replaceWith_shownAll includeNames includeStep_blind () b.legible)
  rw [guardRegions_contents b.written b.counted false]
  refine walked.trans ?_
  rw [each, shownAll_eq, List.map_map]
  rfl


end Sheet

/-- Every output that a page has recorded belongs to one of its tags. -/
theorem entryOutputs_resolve {site : Site} {t page result : Text} {data : List (Value × Value)}
    {d d' : Desk} (entry : d.session.includeStack = [])
    (h : (resolve site t data page).outcome d = (.ok result, d')) :
    ∃ lowered, (transformKept site.delimiters d.now t d.memo).1 = .ok lowered ∧
      d'.session.entryOutputs.length = (includeTags lowered).length ∧
      result = replaceTags lowered d'.session.entryOutputs := by
  rw [resolve_eq_resolveTags] at h
  obtain ⟨depth, s, lowered, d₁, tokens, d₂, he, hl, ht, rfl, -, -, recorded⟩ := resolveTags_ok h
  obtain ⟨numbers, length, rfl, -⟩ := expandTags_sealed site data page _ d₁ d₂ tokens ht
  obtain ⟨level, -⟩ := Session.enter?_ok he
  have first : depth = 0 := by
    rw [level, Session.entryDepth, entry]
    rfl
  rw [recorded first]
  exact ⟨lowered, (Work.outcome_lower_ok hl).1, by rw [List.length_map, length], rfl⟩

/-- **The outputs of a page go back to their places** where it cannot be printed. -/
theorem fallback_agrees {site : Site} (b : Sheet site.delimiters) {d d' : Desk}
    {data : List (Value × Value)} {page result : Text}
    (memo : Recalls site.delimiters [b.source] d.memo) (entry : d.session.includeStack = [])
    (h : (resolve site b.source data page).outcome d = (.ok result, d')) :
    ∃ copies prints : List (List Text),
      copies.map List.flatten = b.copy ∧ prints.map List.flatten = b.lowered ∧
      List.Forall₂ (List.Forall₂ Counterpart) copies prints ∧
      rewriteIncludes (guardRegions (escapeMarkers b.source) false).1 = copies.flatten.flatten ∧
      transform site.delimiters b.source = .ok prints.flatten.flatten ∧
      includeTags copies.flatten.flatten =
        (extents (prints.flatten.map roleOf)).map (Extent.tag copies.flatten) ∧
      includeTags prints.flatten.flatten =
        (extents (prints.flatten.map roleOf)).map (Extent.tag prints.flatten) ∧
      d'.session.entryOutputs.length = (extents (prints.flatten.map roleOf)).length ∧
      result = weave (stretches prints.flatten.flatten) d'.session.entryOutputs ∧
      ∀ e : Desk, e.session.entryOutputs = d'.session.entryOutputs →
        (fallback b.source).outcome e = (do
          let restored ← Work.ofFailure (restoreRegions
            (weave (stretches copies.flatten.flatten) d'.session.entryOutputs)
            (b.regions.map (Region.restored false)))
          Work.splice (replaceAll atSentinel "@" restored) : Work Text).outcome e := by
  obtain ⟨lowered, kept, length, rfl⟩ := entryOutputs_resolve entry h
  obtain ⟨m', hm, -⟩ := memo.transformKept (apart_single _ _) d.now (List.mem_singleton_self _)
  obtain rfl : b.lowered.flatten = lowered := by
    rw [hm, b.lowered_source] at kept
    exact Except.ok.inj kept
  obtain ⟨copies, prints, copied, printed, tiles⟩ := exists_tiles b.parallel
  have copyWhole : b.copy.flatten = copies.flatten.flatten := by
    rw [← copied, List.flatten_flatten]
  have printWhole : b.lowered.flatten = prints.flatten.flatten := by
    rw [← printed, List.flatten_flatten]
  obtain ⟨copyTags, printTags⟩ := includeTags_counterparts (List.rel_flatten tiles)
  have given : d'.session.entryOutputs.length = (extents (prints.flatten.map roleOf)).length := by
    rw [length, printWhole, printTags, List.length_map]
  refine ⟨copies, prints, copied, printed, tiles, b.copy_source.trans copyWhole,
    b.lowered_source.trans (congrArg _ printWhole), copyTags, printTags, given, ?_, ?_⟩
  · rw [← printWhole]
    exact replaceTags_eq_weave length
  · intro e recorded
    have guarded := congrArg Prod.snd (guardRegions_contents b.written b.counted false)
    have same : d'.session.entryOutputs.length = (includeTags b.copy.flatten).length := by
      rw [given, copyWhole, copyTags, List.length_map]
    have rebuilt := replaceTags_eq_weave same
    unfold fallback
    simp only
    rw [Work.outcome_bind_ok (Work.outcome_session e), b.copy_source, recorded, rebuilt, guarded,
      copyWhole]

/-- A page with a comment, a tag around a doubled at sign, a region, a tag in an argument, and a tag
that comes of a directive. -/
def notice : Text := "\x7b\x7b-- draft --\x7d\x7d<include src='card'>@@me</include>" ++
  "@verbatim<include src='no' />@endverbatim" ++
  "@if('<include src=\"news\" />')@include('news')@endif"

/-- A library with the partials of the notice. -/
def noticed : Site := { library := .shelf ⟨[("card", "C"), ("news", "N")]⟩ }

/-- The texts of the notice behind its comment. -/
def noticeTexts : List Part := [.text (tagOpening " src='card'"), .text atSentinel, .text "me",
  .text tagClosing, .text (guardToken 0)]

/-- The directives of the notice. -/
def noticeDirectives : List Part :=
  [.call "if" [] "'<include src=\"news\" />'", .call "include" [] "'news'", .word "endif"]

/-- The parts of the notice. -/
def noticeParts : List Part :=
  [.text "\x7b\x7b-- draft --\x7d\x7d", .text (tagOpening " src='card'"), .text atSentinel,
    .text "me", .text tagClosing, gap] ++ noticeDirectives

theorem numbered_notice :
    numberedParts 0 noticeParts =
      .text "\x7b\x7b-- draft --\x7d\x7d" :: (noticeTexts ++ noticeDirectives) ∧
    numberedParts 0 (noticeParts.map bared) = .text [] :: (noticeTexts ++ noticeDirectives) ∧
    advanced noticed.delimiters (numberedParts 0 (noticeParts.map bared)) =
      .text [] :: (noticeTexts ++ [.text "\x7b% if '<include src=\"news\" />' %\x7d",
        .call "include" [] "'news'", .text "{% endif %}"]) ∧
    finished noticed.delimiters (numberedParts 0 (noticeParts.map bared)) =
      .text [] :: (noticeTexts ++ [.text "\x7b% if '<include src=\"news\" />' %\x7d",
        .text "<include src=\"news\" />", .text "{% endif %}"]) := by
  decide +kernel

theorem legible_notice {x : Text} (plain : '@' ∉ x) {ps : List Part} (h : Legible ps) :
    Legible (.text x :: (noticeTexts ++ ps)) :=
  ⟨plain, by decide, by decide, by decide, by decide, by decide, h⟩

theorem legible_invitation {ps : List Part} (h : Legible ps) :
    Legible (.call "include" [] "'news'" :: ps) :=
  ⟨by decide, by decide, by decide, (Literal.single "news" (by decide) (by decide)).balanced,
    by decide, h⟩

theorem legible_noticeDirectives : Legible noticeDirectives :=
  ⟨by decide, by decide, by decide,
    (Literal.single "<include src=\"news\" />" (by decide) (by decide)).balanced, by decide,
    legible_invitation ⟨by decide, by decide, by decide, trivial⟩⟩

theorem legible_noticeParts : Legible (numberedParts 0 noticeParts) ∧
    Legible (numberedParts 0 (noticeParts.map bared)) ∧
    Legible (advanced noticed.delimiters (numberedParts 0 (noticeParts.map bared))) := by
  have last : Legible [.text "\x7b% if '<include src=\"news\" />' %\x7d", .call "include" [] "'news'",
      .text "{% endif %}"] :=
    ⟨by decide, legible_invitation ⟨by decide, trivial⟩⟩
  rw [numbered_notice.2.2.1, numbered_notice.2.1, numbered_notice.1]
  exact ⟨legible_notice (by decide) legible_noticeDirectives,
    legible_notice (by decide) legible_noticeDirectives, legible_notice (by decide) last⟩

/-- The notice reads as its parts, with its comment and without. -/
theorem read_notice : '\x00' ∉ notice ∧
    (pieces region? (escapeMarkers notice)).map content =
      contents [.verbatim "<include src='no' />"] noticeParts ∧
    (pieces region? (escapeMarkers (stripComments notice))).map content =
      contents [.verbatim "<include src='no' />"] (noticeParts.map bared) := by
  decide +kernel

/-- The tags of the notice are tiles. -/
theorem tile_notice {a : Text} (h : a = " src='card'".toList ∨ a = " src=\"news\" /".toList) :
    Tile (tagOpening a) := by
  have read : AttributeText a ∧ '@' ∉ tagOpening a ∧ Untagged "raw" (tagOpening a) := by
    obtain rfl | rfl := h
    · exact ⟨⟨by decide, by decide, by decide⟩, by decide, by decide⟩
    · exact ⟨⟨by decide, by decide, by decide⟩, by decide, by decide⟩
  have closes : Closes (tagOpening a) := .behind tagLead (.behind a (by decide))
  exact read.1.tile (unguarded_closed closes read.2.1 read.2.2)

/-- Directives of the notice and what stands for them keep the tags in them. -/
theorem keeps_notice :
    Keeps (Part.call "if" [] "'<include src=\"news\" />'").shown
        "\x7b% if '<include src=\"news\" />' %\x7d" ∧
      Keeps (Part.word "endif").shown "{% endif %}" := by
  have closing : ∀ t : Text, Closes t ∧ '@' ∉ t ∧ Hushed t → Mute t := fun t h =>
    mute_closed h.1 h.2.1 h.2.2
  have word : Mute (Part.word "endif").shown :=
    mute_directive (n := "endif") (show name? "endif".toList = some "endif".toList by decide) rfl
      (by decide) (by decide)
  have asked : Mute "@if('" := mute_named (n := "if") (by decide) (by decide)
    (closing "if('" (by decide))
  refine ⟨⟨"@if('", "')", "\x7b% if '", "' %\x7d", [tagOpening " src=\"news\" /"], asked,
    closing _ (by decide), closing _ (by decide), closing _ (by decide), ?_, by decide, by decide⟩,
    word.keeps (closing _ (by decide))⟩
  intro t ht
  obtain rfl := List.mem_singleton.mp ht
  exact tile_notice (.inr rfl)

theorem laid_notice : ∀ t, .text t ∈ noticeParts → t = gapText ∨ t = atSentinel ∨ Clear t := by
  intro t h
  simp only [noticeParts, noticeDirectives, gap, List.cons_append, List.nil_append, List.mem_cons,
    Part.text.injEq, reduceCtorEq, List.not_mem_nil, or_false] at h
  have tile : Tile (tagOpening " src='card'") := tile_notice (.inl rfl)
  obtain rfl | rfl | rfl | rfl | rfl | rfl := h
  · have comment : Mute "\x7b\x7b-- draft --\x7d\x7d" :=
      mute_closed (by decide) (by decide) (by decide)
    exact .inr (.inr ⟨by decide, .inr ⟨by decide, comment⟩⟩)
  · exact .inr (.inr ⟨by decide, .inl ⟨by decide, tile⟩⟩)
  · exact .inr (.inl rfl)
  · exact .inr (.inr ⟨by decide, .inl ⟨by decide, (mute_bare (forall_mem_text (by decide))).tile⟩⟩)
  · exact .inr (.inr ⟨by decide, .inl ⟨by decide, tile_tagClosing⟩⟩)
  · exact .inl rfl

theorem calm_notice : List.Forall₂ Calm (numberedParts 0 (noticeParts.map bared))
    (finished noticed.delimiters (numberedParts 0 (noticeParts.map bared))) := by
  have text : ∀ t q, Calm (.text t) q := fun t q => .unnamed rfl
  have asked : Calm (.call "if" [] "'<include src=\"news\" />'")
      (.text "\x7b% if '<include src=\"news\" />' %\x7d") :=
    .kept (by decide +kernel) (by decide) keeps_notice.1
  have called : Calm (.call "include" [] "'news'") (.text "<include src=\"news\" />") := by
    have answer : inclusion? (.call "include" [] "'news'") = some "<include src=\"news\" />" := by
      decide +kernel
    exact .inclusion answer (forall_mem_text (by decide)) (by decide)
  have ended : Calm (.word "endif") (.text "{% endif %}") :=
    .kept (by decide +kernel) (by decide) keeps_notice.2
  rw [numbered_notice.2.2.2, numbered_notice.2.1]
  exact .cons (text _ _) <| .cons (text _ _) <| .cons (text _ _) <| .cons (text _ _) <|
    .cons (text _ _) <| .cons (text _ _) <| .cons asked <| .cons called <| .cons ended .nil

theorem enclosed_notice (inner : Text)
    (h : Region.verbatim inner ∈ [Region.verbatim "<include src='no' />"]) :
    Untagged "endraw" inner := by
  obtain rfl := Region.verbatim.inj (List.mem_singleton.mp h)
  decide

theorem unforged_notice : Unforged
    ((finished noticed.delimiters (numberedParts 0 (noticeParts.map bared))).map Part.shown) := by
  rw [numbered_notice.2.2.2]
  decide

/-- The notice in parts. -/
def noticeSheet : Sheet noticed.delimiters where
  source := notice
  regions := [.verbatim "<include src='no' />"]
  parts := noticeParts
  visible := read_notice.1
  written := read_notice.2.1
  uncommented := read_notice.2.2
  counted := rfl
  enclosed := enclosed_notice
  laid := laid_notice
  legible := legible_noticeParts.1
  stripped := legible_noticeParts.2.1
  passed := legible_noticeParts.2.2
  calm := calm_notice
  unforged := unforged_notice

/-- The notice with marks in the places of its tags. -/
def noticePrint : Text :=
  "\x00hk:out:0123456789abcdef:0\x00{% raw %}<include src='no' />{% endraw %}" ++
  "\x7b% if '\x00hk:out:0123456789abcdef:1\x00' %\x7d\x00hk:out:0123456789abcdef:2\x00{% endif %}"

theorem fallback_agrees_notice :
    ((resolve noticed notice [] "page").outcome {}).1.toOption = some noticePrint ∧
    ((resolve noticed notice [] "page").outcome {}).2.session.entryOutputs.length = 3 ∧
    ((fallback notice).outcome ((resolve noticed notice [] "page").outcome {}).2).1.toOption =
      some ("\x7b\x7b-- draft --\x7d\x7dC<include src='no' />@if('N')N@endif" : Text) := by
  have printed : ((resolve noticed notice [] "page").outcome {}).1.toOption = some noticePrint := by
    decide +kernel
  have memo : Recalls noticed.delimiters [noticeSheet.source] ({} : Desk).memo :=
    recalls_of_entries_nil rfl
  obtain ⟨copies, prints, copied, shown, -, -, -, -, tags, length, -, put⟩ :=
    fallback_agrees noticeSheet memo rfl (Work.outcome_of_toOption printed)
  have same : copies.flatten.flatten = noticeSheet.copy.flatten := by
    rw [← copied, List.flatten_flatten]
  have three : (includeTags prints.flatten.flatten).length = 3 := by
    rw [List.flatten_flatten, shown]
    decide +kernel
  have source : noticeSheet.source = notice := rfl
  rw [tags, List.length_map] at three
  rw [source] at length put
  have whole := put _ rfl
  rw [same] at whole
  refine ⟨printed, length.trans three, (congrArg (·.1.toOption) whole).trans ?_⟩
  decide +kernel

end Pagewright.Assembly
