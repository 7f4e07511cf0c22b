import Pagewright.Proofs.Assembly.Attribute
import Pagewright.Proofs.Assembly.Link
import Pagewright.Proofs.Desk.Run

/-! # The tag of a link

A lowered link holds the tag of its include and no other (`includeTags_link`).  The tag is read back
as the path it was written for (`parseAttributes_tag`), and what takes its place comes directly
behind the text (`replaceTags_link`). -/

namespace Pagewright.Assembly

open Text Directive Lowering Pagewright.Path

/-! ### Attributes -/

/-- The attributes in the tag of a name. -/
def sourceAttribute (p : Text) : Text := " src=\"" ++ p ++ "\" "

theorem attributesLength?_quoted {q : Char} (r : Text) : ∀ {u : Text}, q ∉ u →
    attributesLength? (some q) (u ++ q :: r) = (attributesLength? none r).map (· + (u.length + 1))
  | [], _ => by
      rw [List.nil_append, attributesLength?, if_pos rfl]
      rfl
  | c :: u, h => by
      have hc : c ≠ q := fun e => h (e ▸ List.mem_cons_self)
      rw [List.cons_append, attributesLength?, if_neg hc,
        attributesLength?_quoted r fun hm => h (List.mem_cons_of_mem c hm), map_add_map_add,
        List.length_cons]

theorem attributesLength?_tag {p : Text} (h : '"' ∉ p) :
    attributesLength? none (" src=\"" ++ p ++ "\" />") = some (p.length + 9) := by
  have inside : attributesLength? (some '"') (p ++ "\" />") =
      (attributesLength? none " />").map (· + (p.length + 1)) := attributesLength?_quoted " />" h
  have e : (" src=\"" ++ p ++ "\" />" : Text) = " src=\"" ++ (p ++ "\" />") := List.append_assoc _ _ _
  have start : attributesLength? none (" src=\"" ++ (p ++ "\" />")) =
      (attributesLength? (some '"') (p ++ "\" />")).map (· + 6) := by
    simp [attributesLength?, Function.comp_def, Nat.add_assoc]
  have stop : attributesLength? none " />" = some 2 := by decide
  rw [e, start, inside, stop]
  simp
  omega

theorem selfClosed?_blank (t : Text) {u : Text} (hu : isBlank u = true) :
    selfClosed? (t ++ '/' :: u) = some t := by
  have kept : stripRight (t ++ '/' :: u) = t ++ ['/'] := by
    rw [← List.singleton_append, ← List.append_assoc]
    exact stripRight_append (by rw [List.getLast?_concat]; decide) hu
  unfold selfClosed?
  simp only [kept, List.getLast?_concat, if_true, List.dropLast_concat]

theorem selfClosed?_slash (t : Text) : selfClosed? (t ++ ['/']) = some t :=
  selfClosed?_blank t rfl

theorem selfClosed?_tag (p : Text) :
    selfClosed? (" src=\"" ++ p ++ "\" /") = some (sourceAttribute p) := by
  have last : sourceAttribute p ++ ['/'] = " src=\"" ++ p ++ "\" /" := List.append_assoc _ _ _
  rw [← last]
  exact selfClosed?_slash (sourceAttribute p)

/-- **The tag of a name is read back** as the name. -/
theorem parseAttributes_tag {p : Text} (h : IsName p) :
    parseAttributes (sourceAttribute p) = [("src".toList, p)] := by
  have shown : sourceAttribute p = writtenAttributes p [] := by
    have alone : ∀ t : Text, join " " [t] = t := fun _ => List.flatten_singleton
    have close : "\" ".toList = "\"".toList ++ " ".toList := rfl
    unfold writtenAttributes sourceAttribute
    rw [List.map_cons, List.map_nil, alone, shownAttribute, escape_name h, close, ← List.append_assoc]
    rfl
  rw [shown]
  exact parseAttributes_written p (List.forall_mem_nil _) List.nodup_nil

/-! ### Tags -/

/-- The tag of an include of a name that stands at an offset. -/
def tagAt (pos : Nat) (p : Text) : IncludeTag :=
  ⟨pos, pos + (includeTag p []).length, sourceAttribute p, none⟩

theorem region?_eq_none {t : Text} (hb : '\x7b' ∉ t) (ha : '@' ∉ t) : region? t = none := by
  have word : wholeWord? "@verbatim" t = none := by
    cases t with
    | nil => rfl
    | cons c r => exact wholeWord?_leads "verbatim" c r fun e => ha (e ▸ List.mem_cons_self)
  unfold region?
  rw [keywordTag?_eq_none hb, word]
  rfl

theorem boundary?_leads : Leads '<' boundary? := by
  intro c r hc
  unfold boundary?
  split
  · next e => exact absurd (List.cons.inj e).1 hc
  · next e => exact absurd (List.cons.inj e).1 hc
  · rfl

/-- The only boundary of a text with the tag of a name behind it. -/
theorem boundaries_tag {t p : Text} (ht : ∀ c ∈ "@\x7b<".toList, c ∉ t) (h : IsName p) :
    boundaries (t ++ includeTag p []) = [⟨t.length, t.length + 8, false⟩] := by
  have protect : protectedSpans (t ++ includeTag p []) = [] := by
    have clear : ∀ c ∈ "@\x7b".toList, c ∉ t ++ includeTag p [] := by
      have all : ∀ d ∈ "@\x7b".toList, d ∈ "@\x7b<".toList ∧ isNameChar d = false ∧
        d ∉ "<include src=\"\" />".toList := forall_mem_text (by decide)
      intro c hc
      obtain ⟨h1, h2, h3⟩ := all c hc
      rw [List.mem_append, not_or]
      exact ⟨ht c h1, not_mem_includeTag h h2 h3⟩
    refine hitSpans_quiet fun c v hv => region?_eq_none ?_ ?_
    · exact fun hm => clear '\x7b' (by decide) (hv.subset hm)
    · exact fun hm => clear '@' (by decide) (hv.subset hm)
  have open? : boundary? ("<include" ++ (" src=\"" ++ p ++ "\" />")) = some (false, 8) := rfl
  have before := piecesFrom_quiet boundary? 0 t ("<include" ++ (" src=\"" ++ p ++ "\" />"))
    (boundary?_leads.quiet (ht '<' (by decide)) _)
  have at_ := piecesFrom_hit boundary? (u := "<include") (0 + t.length)
    (List.cons_ne_nil _ _) open?
  have after := piecesFrom_quiet boundary? (0 + t.length + 8) (" src=\"" ++ p ++ "\" />") []
    (boundary?_leads.quiet (by
      simp only [List.mem_append, not_or]
      exact ⟨⟨by decide, h.not_mem (by decide)⟩, by decide⟩) _)
  rw [List.append_nil] at after
  have eight : "<include".toList.length = 8 := rfl
  rw [eight, after] at at_
  unfold boundaries
  rw [protect, includeTag_name h, pieces, before, at_, List.filterMap_append, List.filterMap_cons,
    List.filterMap_append, List.filterMap_map, List.filterMap_map]
  simp [piecesFrom]

/-- **The tag of a name is the only one** behind a text without angle brackets. -/
theorem includeTags_tag {t p : Text} (ht : ∀ c ∈ "@\x7b<".toList, c ∉ t) (h : IsName p) :
    includeTags (t ++ includeTag p []) = [tagAt t.length p] := by
  have behind : (t ++ includeTag p []).drop (t.length + 8) = " src=\"" ++ p ++ "\" />" := by
    rw [← List.drop_drop, List.drop_left, includeTag_name h]
    rfl
  have stop : tagEnd? (t ++ includeTag p []) (t.length + 8) = some (t.length + p.length + 17) := by
    unfold tagEnd?
    rw [behind, attributesLength?_tag (h.not_mem (by decide))]
    simp
    omega
  have attributes : slice (t ++ includeTag p []) (t.length + 8) (t.length + p.length + 17) =
      " src=\"" ++ p ++ "\" /" := by
    have e : (" src=\"" ++ p ++ "\" />" : Text) = " src=\"" ++ p ++ "\" /" ++ ['>'] := by simp
    rw [slice, behind, e]
    refine List.take_left' ?_
    simp
    omega
  have length : t.length + p.length + 17 + 1 = t.length + (includeTag p []).length := by
    rw [includeTag_name h]
    simp
    omega
  unfold includeTags
  rw [boundaries_tag ht h]
  unfold tagsFrom
  simp only [Nat.not_lt_zero, if_false, Bool.false_eq_true, stop, attributes, selfClosed?_tag, length]
  rfl

/-- A text without angle brackets holds no tag. -/
theorem includeTags_eq_nil {t : Text} (h : '<' ∉ t) : includeTags t = [] := by
  have none : boundaries t = [] := by
    unfold boundaries
    rw [pieces_of_leads boundary?_leads h, List.filterMap_map]
    simp
  unfold includeTags
  rw [none]
  rfl

/-! ### The tag of a link -/

variable {l : Link}

theorem includeTags_link (h : l.Sound) :
    includeTags l.lowered = (l.next.map fun p => tagAt l.text.length p.value).toList := by
  have all : ∀ c ∈ "@\x7b<".toList, c ∈ "@\x7b<\x00\r".toList := forall_mem_text (by decide)
  unfold Link.lowered
  cases hn : l.next with
  | none =>
      rw [Option.map_none, Option.getD_none, List.append_nil]
      exact includeTags_eq_nil (h.text '<' (by decide))
  | some p => exact includeTags_tag (fun c hc => h.text c (all c hc)) (h.next p hn)

theorem replaceTags_tag {t p : Text} (ht : ∀ c ∈ "@\x7b<".toList, c ∉ t) (h : IsName p)
    (new : Text) : replaceTags (t ++ includeTag p []) [new] = t ++ new := by
  have before : slice (t ++ includeTag p []) 0 t.length = t := by
    rw [slice, List.drop_zero, Nat.sub_zero, List.take_left]
  have behind : (t ++ includeTag p []).drop (t.length + (includeTag p []).length) = [] :=
    List.drop_eq_nil_of_le (Nat.le_of_eq List.length_append)
  unfold replaceTags
  rw [includeTags_tag ht h]
  simp only [List.zipIdx_cons, List.zipIdx_nil, List.map_cons, List.map_nil, applyEdits, editFrom,
    tagAt, before, behind, List.append_nil]
  rfl

/-- What takes the place of the tag comes behind the text. -/
theorem replaceTags_link (h : l.Sound) {new : List Text} (hn : new.length = l.next.toList.length) :
    replaceTags l.lowered new = l.text ++ new.flatten := by
  have all : ∀ c ∈ "@\x7b<".toList, c ∈ "@\x7b<\x00\r".toList := forall_mem_text (by decide)
  unfold Link.lowered
  cases hp : l.next with
  | none =>
      rw [hp] at hn
      obtain rfl := List.eq_nil_of_length_eq_zero hn
      unfold replaceTags
      rw [Option.map_none, Option.getD_none, List.append_nil,
        includeTags_eq_nil (h.text '<' (by decide))]
      simp [applyEdits, editFrom]
  | some p =>
      rw [hp] at hn
      obtain ⟨x, rfl⟩ := List.length_eq_one_iff.mp hn
      rw [List.flatten_singleton]
      exact replaceTags_tag (fun c hc => h.text c (all c hc)) (h.next p hp) x

/-! ### The partial that a tag asks for -/

/-- Attributes of a tag that gives no condition and no expression for its data. -/
structure Unconditional (as : List (Text × Text)) : Prop where
  positive : as.lookup (reservedLead ++ "when") = none
  negative : as.lookup (reservedLead ++ "unless") = none
  extra : as.lookup (reservedLead ++ "with") = none

/-- The attributes that are data for the partial. -/
def ownAttributes (as : List (Text × Text)) : List (Text × Text) :=
  as.filter fun (name, _) => name ≠ "src".toList && !reservedLead.isPrefixOf name

/-- What a tag without conditions asks for: the first of its candidates that there is, with the data of
its own attributes. -/
theorem partialFor_unconditional (site : Site) (data : List (Value × Value)) (page : Text)
    {tag : IncludeTag} {as : List (Text × Text)} (read : parseAttributes tag.attributes = as)
    (h : Unconditional as) {src : Text} (source : strip ((as.lookup "src".toList).getD []) = src)
    (given : src ≠ []) (d : Desk) :
    (partialFor site data page tag).outcome d =
      (do let others := (splitOn "|" ((as.lookup (reservedLead ++ "first")).getD [])).filter
            fun name => !name.isEmpty
          let some target ← Work.ofExcept (locate site.library src others
            (as.lookup (reservedLead ++ "optional") = some "true".toList)) | return none
          let locals ← (ownAttributes as).mapM (attributeValue site data page)
          let text ← Work.ofProblem (site.library.read target "include")
          return some ⟨target, fillSlots text (extractSlots (tag.body.getD [])),
            layered [site.data, data, locals]⟩ :
        Work (Option Partial)).outcome d := by
  have nonempty : ¬ src.isEmpty = true := by
    rw [List.isEmpty_iff]
    exact given
  unfold partialFor
  rw [read]
  simp only [source]
  rw [if_neg nonempty, h.positive, h.negative, h.extra]
  -- Neither of the two conditions is asked for.
  refine (@Work.outcome_bind_ok _ _ _ _ d d true rfl).trans ?_
  refine (@Work.outcome_bind_ok _ _ _ _ d d true rfl).trans ?_
  simp only [localsFor, bind_pure]
  rfl

/-- A tag without a source asks for nothing. -/
theorem partialFor_sourceless (site : Site) (data : List (Value × Value)) (page : Text)
    {tag : IncludeTag}
    (source : strip (((parseAttributes tag.attributes).lookup "src".toList).getD []) = [])
    (d : Desk) : (partialFor site data page tag).outcome d =
      (.error (.problem (.malformed "Include tag without a src attribute" (some page) [])), d) := by
  unfold partialFor
  simp only [source]
  rfl

/-- What the tag of a name asks for: the template under the name, with no slots and no data of its
own. -/
theorem partialFor_tag (site : Site) (data : List (Value × Value)) (page : Text) (pos : Nat)
    {p : Text} (hp : IsName p) (d : Desk) :
    (partialFor site data page (tagAt pos p)).outcome d =
      (do let some target ← Work.ofExcept (locate site.library p [] false) | return none
          let text ← Work.ofProblem (site.library.read target "include")
          return some ⟨target, fillSlots text [], layered [site.data, data, []]⟩ :
        Work (Option Partial)).outcome d := by
  have source : ((List.lookup "src".toList [("src".toList, p)]).getD []).strip = p := by
    simp [strip_solid hp.not_space]
  have own : ownAttributes [("src".toList, p)] = [] := by simp [ownAttributes]
  have all := @partialFor_unconditional site data page (tagAt pos p) _ (parseAttributes_tag hp)
    ⟨rfl, rfl, rfl⟩ p source hp.canonical.ne_nil d
  rw [own] at all
  exact all

end Pagewright.Assembly
