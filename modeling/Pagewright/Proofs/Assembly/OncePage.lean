import Mathlib
import Pagewright.Proofs.Assembly.Marker

/-! # Pages with once blocks

A printed page of text and once blocks that are nested in each other to any depth (`OncePage`).  A
block ends at the first closing marker of its key, so on a page with no block inside another one of the
same key every outermost block is read whole (`once?_block`), and one pass over the page keeps the
first outermost block of every key (`keepFirst_shown`).

Main definitions: `OncePage`, what one round has `kept` of it, `OncePage.Sound`. -/

namespace Pagewright.Assembly

open Text Lowering

attribute [local instance] lawfulBEq_text

/-- A printed page: text that a once block follows, as often as there are any, and the text behind the
last of them. -/
inductive OncePage where
  | text (t : Text)
  | block (t key : Text) (body rest : OncePage)
  deriving DecidableEq, Repr

namespace OncePage

/-- A page as it is printed. -/
def shown : OncePage → Text
  | text t => t
  | block t key body rest =>
      t ++ (marker "once" key ++ (body.shown ++ (marker "endonce" key ++ rest.shown)))

/-- A page behind a text. -/
def behind (t : Text) : OncePage → OncePage
  | text u => text (t ++ u)
  | block u key body rest => block (t ++ u) key body rest

/-- Two pages one after the other. -/
def append : OncePage → OncePage → OncePage
  | text t, e => e.behind t
  | block t key body rest, e => block t key body (rest.append e)

/-- A page with the first of its outermost blocks of every key kept and the others dropped, and the
keys that were seen: what one round does. -/
def kept : List Text → OncePage → OncePage × List Text
  | seen, text t => (text t, seen)
  | seen, block t key body rest =>
      if key ∈ seen then ((rest.kept seen).1.behind t, (rest.kept seen).2)
      else
        ((body.append (rest.kept (seen ++ [key])).1).behind t, (rest.kept (seen ++ [key])).2)

/-- The keys of the blocks of a page, in the order in which the blocks open. -/
def keys : OncePage → List Text
  | text _ => []
  | block _ key body rest => key :: (body.keys ++ rest.keys)

/-- The texts between the markers of a page. -/
def texts : OncePage → List Text
  | text t => [t]
  | block t _ body rest => t :: (body.texts ++ rest.texts)

/-- No block stands inside another one of the same key. -/
def Apart : OncePage → Prop
  | text _ => True
  | block _ key body rest => key ∉ body.keys ∧ body.Apart ∧ rest.Apart

instance decidableApart : (d : OncePage) → Decidable d.Apart
  | text _ => isTrue trivial
  | block _ key body rest =>
      have := decidableApart body
      have := decidableApart rest
      inferInstanceAs (Decidable (key ∉ body.keys ∧ body.Apart ∧ rest.Apart))

/-- A page on which no block stands inside another one of the same key and whose texts hold no marker of
a once block, nor do any of them that come together when blocks are taken out. -/
structure Sound (d : OncePage) : Prop where
  keys : ∀ k ∈ d.keys, MarkerName k
  apart : d.Apart
  texts : ∀ ts ∈ d.texts.sublists, Nowhere onceMark? ts.flatten

instance (d : OncePage) : Decidable d.Sound :=
  decidable_of_iff
    ((∀ k ∈ d.keys, MarkerName k) ∧ d.Apart ∧
      ∀ ts ∈ d.texts.sublists, Nowhere onceMark? ts.flatten)
    ⟨fun ⟨a, b, c⟩ => ⟨a, b, c⟩, fun ⟨a, b, c⟩ => ⟨a, b, c⟩⟩

/-! ### Pages put together -/

theorem shown_behind (t : Text) (d : OncePage) : (d.behind t).shown = t ++ d.shown := by
  cases d with
  | text u => rfl
  | block u key body rest => simp only [behind, shown, List.append_assoc]

theorem shown_append (d e : OncePage) : (d.append e).shown = d.shown ++ e.shown := by
  induction d with
  | text t => exact shown_behind t e
  | block t key body rest ihb ihr => simp only [append, shown, ihr, List.append_assoc]

theorem keys_behind (t : Text) (d : OncePage) : (d.behind t).keys = d.keys := by
  cases d <;> rfl

theorem keys_append (d e : OncePage) : (d.append e).keys = d.keys ++ e.keys := by
  induction d with
  | text t => exact keys_behind t e
  | block t key body rest ihb ihr =>
    simp only [append, keys, ihr, List.append_assoc, List.cons_append]

theorem apart_behind (t : Text) (d : OncePage) : (d.behind t).Apart ↔ d.Apart := by
  cases d <;> rfl

theorem apart_append (d e : OncePage) : (d.append e).Apart ↔ d.Apart ∧ e.Apart := by
  induction d with
  | text t =>
    rw [append, apart_behind, Apart, true_and]
  | block t key body rest ihb ihr => simp only [append, Apart, ihr, and_assoc]

/-! ### What a round keeps -/

theorem keys_kept (seen : List Text) (d : OncePage) : (d.kept seen).1.keys.Sublist d.keys := by
  induction d generalizing seen with
  | text t => exact List.Sublist.refl _
  | block t key body rest ihb ihr =>
    rw [kept]
    split
    · rw [keys_behind]
      exact ((ihr seen).trans (List.sublist_append_right _ _)).cons key
    · rw [keys_behind, keys_append]
      exact ((List.Sublist.refl _).append (ihr _)).cons key

theorem apart_kept {d : OncePage} (h : d.Apart) (seen : List Text) : (d.kept seen).1.Apart := by
  induction d generalizing seen with
  | text t => exact h
  | block t key body rest ihb ihr =>
    obtain ⟨-, inside, after⟩ := h
    rw [kept]
    split
    · rw [apart_behind]
      exact ihr after seen
    · rw [apart_behind, apart_append]
      exact ⟨inside, ihr after _⟩

/-- The texts of `us` are put together from texts of `ts`, some of which may be left out. -/
def Glued (ts us : List Text) : Prop :=
  ∀ w : List Text, w.Sublist us → ∃ v : List Text, v.Sublist ts ∧ v.flatten = w.flatten

theorem Glued.refl (ts : List Text) : Glued ts ts := fun w hw => ⟨w, hw, rfl⟩

theorem Glued.trans {ts us ws : List Text} (h : Glued ts us) (h' : Glued us ws) : Glued ts ws := by
  intro w hw
  obtain ⟨v, hv, e⟩ := h' w hw
  obtain ⟨u, hu, e'⟩ := h v hv
  exact ⟨u, hu, e'.trans e⟩

theorem Glued.left_out {ts us : List Text} (h : Glued ts us) (ws : List Text) :
    Glued (ws ++ ts) us := by
  intro w hw
  obtain ⟨v, hv, e⟩ := h w hw
  exact ⟨v, hv.trans (List.sublist_append_right ws ts), e⟩

theorem Glued.append {ts us : List Text} (h : Glued ts us) (ws : List Text) :
    Glued (ws ++ ts) (ws ++ us) := by
  intro w hw
  obtain ⟨a, b, rfl, ha, hb⟩ := List.sublist_append_iff.mp hw
  obtain ⟨v, hv, e⟩ := h b hb
  refine ⟨a ++ v, ha.append hv, ?_⟩
  rw [List.flatten_append, List.flatten_append, e]

theorem glued_behind (t : Text) (d : OncePage) : Glued (t :: d.texts) (d.behind t).texts := by
  have first : ∀ (u : Text) (us : List Text), Glued (t :: u :: us) ((t ++ u) :: us) := by
    intro u us w hw
    cases hw with
    | cons _ hw => exact ⟨w, (hw.cons u).cons t, rfl⟩
    | cons_cons _ hw => exact ⟨_, (hw.cons_cons u).cons_cons t, by simp⟩
  cases d with
  | text u => exact first u []
  | block u key body rest => exact first u _

theorem glued_append (d e : OncePage) : Glued (d.texts ++ e.texts) (d.append e).texts := by
  induction d with
  | text t => exact glued_behind t e
  | block t key body rest ihb ihr =>
    have inner := ihr.append (t :: body.texts)
    simpa only [texts, append, List.append_assoc, List.cons_append] using inner

theorem glued_kept (seen : List Text) (d : OncePage) : Glued d.texts (d.kept seen).1.texts := by
  induction d generalizing seen with
  | text t => exact Glued.refl _
  | block t key body rest ihb ihr =>
    rw [kept]
    split
    · exact (((ihr seen).left_out body.texts).append [t]).trans (glued_behind t _)
    · have inner := ((ihr (seen ++ [key])).append body.texts).trans (glued_append body _)
      exact (inner.append [t]).trans (glued_behind t _)

theorem Sound.kept {d : OncePage} (h : d.Sound) (seen : List Text) : (d.kept seen).1.Sound where
  keys k hk := h.keys k ((keys_kept seen d).subset hk)
  apart := apart_kept h.apart seen
  texts ts hts := by
    obtain ⟨us, hus, e⟩ := glued_kept seen d ts (List.mem_sublists.mp hts)
    rw [← e]
    exact h.texts us (List.mem_sublists.mpr hus)

theorem Sound.nowhere {d : OncePage} (h : d.Sound) : ∀ t ∈ d.texts, Nowhere onceMark? t := by
  intro t ht
  have single := h.texts [t] (List.mem_sublists.mpr (List.singleton_sublist.mpr ht))
  rwa [List.flatten_singleton] at single

theorem Sound.rest {t key : Text} {body rest : OncePage} (h : (block t key body rest).Sound) :
    rest.Sound where
  keys k hk := h.keys k (List.mem_cons_of_mem key (List.mem_append_right body.keys hk))
  apart := h.apart.2.2
  texts ts hts := by
    have inside := (List.mem_sublists.mp hts).trans (List.sublist_append_right body.texts rest.texts)
    exact h.texts ts (List.mem_sublists.mpr (inside.cons t))

end OncePage

/-! ### Reading blocks -/

section Reading

variable {k : Text} {r : Text}

theorem onceMark?_of_closer (hk : MarkerName k) {v : Text}
    (h : dropLead? (marker "endonce" k) v ≠ none) : ∃ n, onceMark? v = some (k, n) := by
  obtain ⟨w, hw⟩ := Option.ne_none_iff_exists'.mp h
  rw [eq_append_of_dropLead? hw]
  exact ⟨_, onceMark?_closer hk w⟩

/-- A stretch without markers of the key goes in front of the closing marker that is looked for. -/
theorem cutAt?_stretch (hk : MarkerName k) {u : Text}
    (h : ∀ c v, c :: v <:+ u → ∀ n, onceMark? (c :: v ++ r) ≠ some (k, n)) :
    cutAt? (marker "endonce" k) (u ++ r) =
      (cutAt? (marker "endonce" k) r).map fun (before, after) => (u ++ before, after) := by
  apply cutAt?_quiet
  intro c v hv
  by_contra closer
  obtain ⟨n, hn⟩ := onceMark?_of_closer hk closer
  exact h c v hv n hn

theorem cutAt?_text (hk : MarkerName k) {t : Text} (ht : Nowhere onceMark? t) (hr : AtBracket r) :
    cutAt? (marker "endonce" k) (t ++ r) =
      (cutAt? (marker "endonce" k) r).map fun (before, after) => (t ++ before, after) := by
  apply cutAt?_stretch hk
  intro c v hv n
  rw [quiet_atBracket onceMark?_parted ht hr c v hv]
  simp

/-- A marker of another key is not the closing marker that is looked for. -/
theorem cutAt?_marker (hk : MarkerName k) {kind key : Text} {n : Nat} (hb : '<' ∉ kind)
    (hkey : MarkerName key) (read : onceMark? (marker kind key ++ r) = some (key, n))
    (hne : key ≠ k) :
    cutAt? (marker "endonce" k) (marker kind key ++ r) =
      (cutAt? (marker "endonce" k) r).map fun (before, after) => (marker kind key ++ before, after) := by
  apply cutAt?_stretch hk
  intro c v hv m
  obtain whole | inside := marker_suffix hb hkey hv
  · rw [whole, read]
    intro e
    exact hne (Prod.mk.inj (Option.some.inj e)).1
  · rw [List.cons_append, onceMark?_leads c (v ++ r) inside]
    simp

/-- A page without blocks of the key goes in front of the closing marker that is looked for. -/
theorem cutAt?_shown (hk : MarkerName k) (d : OncePage) (keys : ∀ key ∈ d.keys, MarkerName key)
    (texts : ∀ t ∈ d.texts, Nowhere onceMark? t) (hd : k ∉ d.keys) (hr : AtBracket r) :
    cutAt? (marker "endonce" k) (d.shown ++ r) =
      (cutAt? (marker "endonce" k) r).map fun (before, after) => (d.shown ++ before, after) := by
  induction d generalizing r with
  | text t => exact cutAt?_text hk (texts t List.mem_cons_self) hr
  | block t key body rest ihb ihr =>
    obtain ⟨named, keys⟩ := List.forall_mem_cons.mp keys
    obtain ⟨plain, texts⟩ := List.forall_mem_cons.mp texts
    obtain ⟨bodyKeys, restKeys⟩ := List.forall_mem_append.mp keys
    obtain ⟨bodyTexts, restTexts⟩ := List.forall_mem_append.mp texts
    simp only [OncePage.keys, List.mem_cons, List.mem_append, not_or] at hd
    obtain ⟨ne, notInside, notAfter⟩ := hd
    simp only [OncePage.shown, List.append_assoc]
    rw [cutAt?_text hk plain (atBracket_marker _ _ _),
      cutAt?_marker hk (by decide) named (onceMark?_opener named _) (Ne.symm ne),
      ihb bodyKeys bodyTexts notInside (atBracket_marker _ _ _),
      cutAt?_marker hk (by decide) named (onceMark?_closer named _) (Ne.symm ne),
      ihr restKeys restTexts notAfter hr]
    cases cutAt? (marker "endonce" k) r with
    | none => rfl
    | some found => simp only [Option.map_some]

/-- A block is read up to its own closing marker. -/
theorem once?_block (hk : MarkerName k) {d : OncePage} (keys : ∀ key ∈ d.keys, MarkerName key)
    (texts : ∀ t ∈ d.texts, Nowhere onceMark? t) (hd : k ∉ d.keys) (r : Text) :
    once? (marker "once" k ++ (d.shown ++ (marker "endonce" k ++ r))) =
      some ((k, d.shown), (marker "once" k ++ (d.shown ++ marker "endonce" k)).length) := by
  have lead : dropLead? "<!--hk:once:" (marker "once" k ++ (d.shown ++ (marker "endonce" k ++ r))) =
      some (k ++ ("-->" ++ (d.shown ++ (marker "endonce" k ++ r)))) := by
    rw [marker_append]
    exact dropLead?_append "<!--hk:once:" _
  have cut : cutAt? (marker "endonce" k) (d.shown ++ (marker "endonce" k ++ r)) =
      some (d.shown, r) := by
    rw [cutAt?_shown hk d keys texts hd (atBracket_marker _ _ _), cutAt?_self (marker_ne_nil _ _)]
    simp
  have covered : (marker "once" k ++ (d.shown ++ (marker "endonce" k ++ r))).length - r.length =
      (marker "once" k ++ (d.shown ++ marker "endonce" k)).length := by
    simp only [List.length_append]
    omega
  unfold once?
  rw [lead]
  simp only [Option.bind_eq_bind, Option.bind_some, markerRest?_name hk, cut, covered]
  rfl

end Reading

/-! ### A round -/

theorem keepFirst_text (seen : List Text) (t : Text) (ps : List (Piece (Text × Text))) :
    keepFirst seen (t.map .char ++ ps) = (t ++ (keepFirst seen ps).1, (keepFirst seen ps).2) := by
  induction t with
  | nil => rfl
  | cons c t ih => rw [List.map_cons, List.cons_append, keepFirst, ih, List.cons_append]

variable {d : OncePage}

theorem piecesFrom_text {t r : Text} (ht : Nowhere onceMark? t) (hr : AtBracket r) (pos : Nat) :
    piecesFrom once? pos 0 (t ++ r) =
      t.map .char ++ piecesFrom once? (pos + t.length) 0 r := by
  apply piecesFrom_quiet
  intro c v hv
  exact once?_eq_none_of_onceMark? (quiet_atBracket onceMark?_parted ht hr c v hv)

/-- A page that begins with a block is scanned as the text in front of it, the block and the rest. -/
theorem piecesFrom_block {t key : Text} {body rest : OncePage}
    (h : (OncePage.block t key body rest).Sound) (pos : Nat) : ∃ start stop,
      piecesFrom once? pos 0 (OncePage.block t key body rest).shown =
        t.map .char ++ .hit (key, body.shown) start stop :: piecesFrom once? stop 0 rest.shown := by
  obtain ⟨named, keys⟩ := List.forall_mem_cons.mp h.keys
  obtain ⟨plain, texts⟩ := List.forall_mem_cons.mp h.nowhere
  have read := once?_block named (List.forall_mem_append.mp keys).1
    (List.forall_mem_append.mp texts).1 h.apart.1 rest.shown
  have covered : marker "once" key ++ (body.shown ++ marker "endonce" key) ≠ [] := by
    intro e
    exact marker_ne_nil _ _ (List.append_eq_nil_iff.mp e).1
  have whole : marker "once" key ++ (body.shown ++ (marker "endonce" key ++ rest.shown)) =
      marker "once" key ++ (body.shown ++ marker "endonce" key) ++ rest.shown := by
    simp only [List.append_assoc]
  refine ⟨pos + t.length,
    pos + t.length + (marker "once" key ++ (body.shown ++ marker "endonce" key)).length, ?_⟩
  rw [OncePage.shown, piecesFrom_text plain (atBracket_marker _ _ _)]
  rw [whole] at read ⊢
  rw [piecesFrom_hit once? _ covered read]

/-- **One pass over a page** keeps the first of its outermost blocks of every key. -/
theorem keepFirst_shown (h : d.Sound) (seen : List Text) (pos : Nat) :
    keepFirst seen (piecesFrom once? pos 0 d.shown) = ((d.kept seen).1.shown, (d.kept seen).2) := by
  induction d generalizing seen pos with
  | text t =>
    have chars := piecesFrom_text (h.nowhere t List.mem_cons_self) atBracket_nil pos
    rw [List.append_nil, piecesFrom] at chars
    rw [OncePage.shown, chars, keepFirst_text]
    simp [keepFirst, OncePage.kept, OncePage.shown]
  | block t key body rest ihb ihr =>
    obtain ⟨start, stop, scanned⟩ := piecesFrom_block h pos
    rw [scanned, keepFirst_text, keepFirst, OncePage.kept]
    by_cases old : key ∈ seen
    · rw [if_pos (List.contains_iff_mem.mpr old), if_pos old, ihr h.rest]
      simp only [OncePage.shown_behind]
    · rw [if_neg (mt List.contains_iff_mem.mp old), if_neg old, ihr h.rest]
      simp only [OncePage.shown_behind, OncePage.shown_append]

end Pagewright.Assembly
