import Pagewright.Lowering.Transform
import Pagewright.Proofs.Directive.Span
import Pagewright.Proofs.Lowering.FairMapping
import Pagewright.Proofs.Lowering.Marking

/-! # Fair answers

What the handlers of the passes write for a directive with fair arguments is solid: it may stand
between any two genuine texts (`Solid`).  The passes for conditionals, switches and loops leave
tokens as they are; a class directive and an include directive may space them out.

Main definition: `Solid`. -/

namespace Pagewright.Lowering

open Text Directive

variable {loose : Bool} {regions : List Text}

/-- A text that may take the place of a directive in a genuine text. -/
structure Solid (loose : Bool) (regions : List Text) (t : Text) : Prop where
  given : t ≠ []
  clear : Clear (generated t)
  genuine : ∀ m, Genuine loose regions m → Genuine loose regions (generated t ++ m)

theorem Mortar.solid {t : Text} (h : Mortar t) : Solid loose regions t :=
  ⟨h.given, h.clear, fun _ hm => hm.behind h.bland⟩

theorem Solid.append {t u : Text} (ht : Solid loose regions t) (hu : Solid loose regions u) :
    Solid loose regions (t ++ u) := by
  refine ⟨fun e => ht.given (List.append_eq_nil_iff.mp e).1, ?_, fun m hm => ?_⟩
  · obtain ⟨c, r, rfl⟩ := List.exists_cons_of_ne_nil ht.given
    exact ht.clear
  · rw [generated_append, List.append_assoc]
    exact ht.genuine _ (hu.genuine m hm)

/-- A fair text between two mortars is solid. -/
theorem solid_between {p t q : Text} (hp : Mortar p) (ht : Fair loose regions t) (hq : Mortar q) :
    Solid loose regions (p ++ (t ++ q)) := by
  refine ⟨fun e => hp.given (List.append_eq_nil_iff.mp e).1, ?_, fun m hm => ?_⟩
  · rw [generated_append]
    exact hp.clear_append _
  · rw [generated_append, generated_append, List.append_assoc, List.append_assoc]
    exact (Genuine.append ht (hm.behind hq.bland) (hq.clear_append m)).behind hp.bland

theorem Fair.tag {t : Text} (h : Fair loose regions t) : Solid loose regions (tag t) := by
  rw [Lowering.tag, List.append_assoc]
  exact solid_between (by decide) h (by decide)

/-- A directive with fair arguments. -/
def FairArgs (loose : Bool) (regions : List Text) (d : Directive) : Prop :=
  ∀ a ∈ d.args, Fair loose regions a

/-! ### Conditionals -/

theorem solid_conditionalTag? {d : Directive} (hd : FairArgs loose regions d) {new : Text}
    (h : conditionalTag? d = some new) : Solid loose regions new := by
  have fixed : ∀ t : Text, bland t = true → Solid loose regions (tag t) := fun t ht =>
    (fair_of_bland ht).tag
  unfold conditionalTag? at h
  split at h
  · obtain rfl := Option.some.inj h
    exact fixed _ (by decide)
  · split at h
    · obtain rfl := Option.some.inj h
      exact fixed _ (by decide)
    · split at h
      · cases h
      · cases h
      · next e _ given =>
        obtain ⟨a, ha, rfl⟩ := Option.map_eq_some_iff.mp given
        have fair := (hd a ha).strip
        split at h
        · obtain rfl := Option.some.inj h
          exact (fair.behind (by decide)).tag
        · split at h
          · obtain rfl := Option.some.inj h
            exact (fair.behind (by decide)).tag
          · split at h
            · obtain rfl := Option.some.inj h
              simp only [List.append_assoc]
              exact ((fair.join_mortar (by decide) (fair.mortar (by decide))).behind (by decide)).tag
            · obtain rfl := Option.some.inj h
              rw [List.append_assoc]
              exact ((fair.mortar (by decide)).behind (by decide)).tag

/-! ### Switches -/

theorem bland_ofNat (n : Nat) : bland (ofNat n) = true := by
  refine bland_of_forall fun c hc => ?_
  have digit := isDigit_of_mem_ofNat hc
  constructor <;> rintro rfl <;> exact absurd digit (by decide)

theorem bland_switchSubject (n : Nat) : bland (switchSubject n) = true :=
  bland_append (by decide) (bland_ofNat n)

/-- Only `break` is answered with nothing. -/
theorem solid_switchTag? {s : Switches} {d : Directive} (hd : FairArgs loose regions d) {new : Text}
    (h : (switchTag? s d).1 = some new) :
    Solid loose regions new ∨ new = [] ∧ d.name = "break" := by
  have fixed : ∀ t : Text, bland t = true → Solid loose regions (tag t) := fun t ht =>
    (fair_of_bland ht).tag
  -- The subject is compared with what stands in round brackets.
  have named : ∀ (p q : Text) (n : Nat) {e : Text}, bland p = true → bland q = true →
      Fair loose regions e → Solid loose regions (tag (p ++ switchSubject n ++ q ++ e ++ ")")) := by
    intro p q n e hp hq he
    have closed : Mortar ")" := by decide
    rw [List.append_assoc, List.append_assoc, List.append_assoc]
    exact ((((he.mortar closed).behind hq).behind (bland_switchSubject n)).behind hp).tag
  unfold switchTag? at h
  split at h
  · split at h
    · cases h
    · next e given =>
      obtain rfl := Option.some.inj h
      exact Or.inl ((named _ _ _ (by decide) (by decide) (hd e given).strip).append
        (fixed _ (by decide)))
  · split at h
    · cases h
    · split at h
      · split at h
        · cases h
        · next e given =>
          obtain rfl := Option.some.inj h
          exact Or.inl (named _ _ _ (by decide) (by decide) (hd e given).strip)
      · split at h
        · next quit =>
          obtain rfl := Option.some.inj h
          exact Or.inr ⟨rfl, quit⟩
        · split at h
          · obtain rfl := Option.some.inj h
            exact Or.inl (fixed _ (by decide))
          · obtain rfl := Option.some.inj h
            exact Or.inl (fixed _ (by decide))

/-! ### Loops -/

theorem suffix_of_behindWord? {word t u : Text} (h : behindWord? word t = some u) : u <:+ t := by
  unfold behindWord? at h
  split at h
  · next c r e =>
    split at h
    · obtain rfl := Option.some.inj h
      rw [eq_append_of_dropLead? e]
      exact ((List.dropWhile_suffix isSpace).trans (List.suffix_cons c r)).trans
        (List.suffix_append word _)
    · cases h
  · cases h

theorem dropDeclaration_suffix (t : Text) : dropDeclaration t <:+ t := by
  rw [dropDeclaration_eq]
  cases hl : behindWord? "let" t with
  | some u => exact suffix_of_behindWord? hl
  | none =>
    cases hc : behindWord? "const" t with
    | some u => exact suffix_of_behindWord? hc
    | none =>
      cases hv : behindWord? "var" t with
      | some u => exact suffix_of_behindWord? hv
      | none => exact List.suffix_rfl

theorem parting_blank : Parting false ' ' := ⟨by decide, nofun⟩

theorem Fair.keywordHeader {word e : Text} (he : Fair false regions e)
    (hw : Mortar (' ' :: word)) {h : Text × Text}
    (hh : keywordHeader? (' ' :: word) e = some h) :
    Fair false regions h.1 ∧ Fair false regions h.2 := by
  have pieces := he.splitTop parting_blank word
  unfold keywordHeader? at hh
  split at hh
  · next first second more split =>
    obtain rfl := Option.some.inj hh
    rw [split] at pieces
    obtain ⟨front, others⟩ := List.forall_mem_cons.mp pieces
    exact ⟨fair_join hw others, front.of_suffix (dropDeclaration_suffix first)⟩
  · cases hh

/-- The header of a loop is fair, as its arguments are. -/
theorem Fair.header {args : Text} (ha : Fair false regions args) {h : LoopHeader}
    (hh : loopHeader? args = some h) :
    Fair false regions h.collection ∧ Fair false regions h.target := by
  have he : Fair false regions (join " " (Text.words args)) := fair_join (by decide) ha.words
  unfold loopHeader? at hh
  generalize join " " (Text.words args) = e at he hh
  have kept : ∀ {g : LoopHeader}, ((some g).bind fun header =>
      if header.collection.isEmpty || !isLoopTarget header.target then none
      else some header) = some h → h = g := by
    intro g hg
    rw [Option.bind_some] at hg
    split at hg
    · cases hg
    · exact (Option.some.inj hg).symm
  have pieces : ∀ p ∈ (Directive.splitTop " as " e).reverse, Fair false regions p := fun p hp =>
    he.splitTop parting_blank "as " p (List.mem_reverse.mp hp)
  simp only at hh
  split at hh
  · next target before earlier er =>
    rw [er] at pieces
    obtain ⟨ht, others⟩ := List.forall_mem_cons.mp pieces
    have hc : Fair false regions (join " as " (before :: earlier).reverse) :=
      fair_join (by decide) fun t hm => others t (List.mem_reverse.mp hm)
    split at hh
    · next key value ek =>
      have parts := ht.splitTop parting_arrow ">"
      have parts : ∀ p ∈ [key, value], Fair false regions p := ek ▸ parts
      obtain ⟨hk, hv⟩ := List.forall_mem_cons.mp parts
      rw [kept hh]
      refine ⟨hc, ?_⟩
      rw [List.append_assoc]
      exact hk.join_mortar (by decide) (hv value List.mem_cons_self)
    · rw [kept hh]
      exact ⟨hc, ht⟩
  · cases hof : keywordHeader? " of " e with
    | some found =>
      rw [hof] at hh
      rw [kept hh]
      exact he.keywordHeader (by decide) hof
    | none =>
      cases hin : keywordHeader? " in " e with
      | some found =>
        rw [hof, hin] at hh
        rw [kept hh]
        exact he.keywordHeader (by decide) hin
      | none =>
        rw [hof, hin] at hh
        cases hh

theorem solid_loopOpening (n outer : Nat) {h : LoopHeader} (hc : Fair loose regions h.collection)
    (ht : Fair loose regions h.target) : Solid loose regions (loopOpening n outer h) := by
  have row : bland ("_hk_row_" ++ ofNat n) = true := bland_append (by decide) (bland_ofNat n)
  have parent : bland (if outer = 0 then ("none" : Text) else "loop") = true := by
    split <;> decide
  have pairs : bland (if h.pairs then ("true" : Text) else "false") = true := by
    split <;> decide
  have comma : bland ", " = true := by decide
  have position := bland_append (bland_ofNat (outer + 1))
    (bland_append comma (bland_append pairs (by decide : bland ")" = true)))
  have rest := bland_append parent (bland_append comma position)
  have rows : Fair loose regions (h.collection ++ ("), ".toList ++ _)) :=
    hc.join_mortar (by decide) (fair_of_bland rest)
  unfold loopOpening
  refine Solid.append (Solid.append (Fair.tag ?_) (Fair.tag ?_)) (Fair.tag ?_)
  · have front : bland ("for " ++ ("_hk_row_" ++ ofNat n) ++ " in _hk_iterate((") = true :=
      bland_append (bland_append (by decide) row) (by decide)
    simpa only [List.append_assoc] using rows.behind front
  · exact fair_of_bland (bland_append (bland_append (by decide) row) (by decide))
  · rw [List.append_assoc, List.append_assoc, List.append_assoc]
    exact (ht.join_mortar (by decide)
      (fair_of_bland (bland_append row (by decide)))).behind (by decide)

/-- **Loop directives with fair arguments get solid answers.** -/
theorem solid_loopTag? {s : Loops} {d : Directive} (hd : FairArgs false regions d) {new : Text}
    (h : (loopTag? s d).1 = some new) : Solid false regions new := by
  have fixed : ∀ t : Text, bland t = true → Solid false regions (tag t) := fun t ht =>
    (fair_of_bland ht).tag
  unfold loopTag? at h
  split at h
  · simp only at h
    split at h
    · cases h
    · next header given =>
      obtain rfl := Option.some.inj h
      split at given
      · cases given
      · cases given
      · next args _ e =>
        obtain ⟨hc, ht⟩ := (hd args e).header given
        exact solid_loopOpening _ _ hc ht
  · split at h
    · split at h
      · cases h
      · split at h
        · split at h
          · obtain rfl := Option.some.inj h
            exact (fixed _ (by decide)).append (fixed _ (by decide))
          · cases h
        · cases h
    · split at h
      · cases h
      · simp only at h
        split at h
        · cases h
        · split at h
          · obtain rfl := Option.some.inj h
            exact fixed _ (by decide)
          · obtain rfl := Option.some.inj h
            exact (fixed _ (by decide)).append (fixed _ (by decide))

/-! ### Helpers -/

theorem FairArgs.argumentList {d : Directive} (hd : FairArgs loose regions d) :
    ∀ a ∈ d.argumentList, Fair loose regions a := by
  intro a ha
  rw [Directive.argumentList] at ha
  cases e : d.args with
  | none =>
    rw [e] at ha
    cases ha
  | some args =>
    rw [e] at ha
    exact (hd args e).arguments a ha

/-- The argument of a class directive stays fair as a literal. -/
theorem Fair.classExpression {e : Text} (he : Fair true regions e) :
    Fair true regions (classExpression e) := by
  have stripped := he.strip
  unfold Lowering.classExpression
  split
  · exact fair_mappingTo _ stripped
  · next inner list =>
    have inside := stripped.between ⟨by decide, fun _ => by decide⟩ list
    refine fair_bracketed (by decide) (by decide) fun t ht => ?_
    obtain ⟨item, hi, rfl⟩ := List.mem_map.mp ht
    have own := inside.arguments item hi
    have pieces := own.splitTop parting_arrow ">"
    split
    · next name condition split =>
      have pieces : ∀ p ∈ [name, condition], Fair true regions p := split ▸ pieces
      obtain ⟨hn, hc⟩ := List.forall_mem_cons.mp pieces
      have closed := (hc condition List.mem_cons_self).mortar (q := "))") (by decide)
      rw [List.append_assoc, List.append_assoc, List.append_assoc]
      exact (hn.join_mortar (by decide) closed).behind (by decide)
    · rw [List.append_assoc]
      exact (own.mortar (by decide)).behind (by decide)

/-- Delimiters that neither begin like a token nor run into an escape. -/
structure Tame (ds : Delimiters) : Prop where
  start : bland ds.start = true
  stop : bland ds.stop = true
  clear : Clear (generated ds.start)

instance (ds : Delimiters) : Decidable (Tame ds) :=
  decidable_of_iff (bland ds.start = true ∧ bland ds.stop = true ∧ Clear (generated ds.start))
    ⟨fun ⟨a, b, c⟩ => ⟨a, b, c⟩, fun ⟨a, b, c⟩ => ⟨a, b, c⟩⟩

theorem Mortar.append {t u : Text} (ht : Mortar t) (hu : Lowering.bland u = true) : Mortar (t ++ u) := by
  refine ⟨bland_append ht.bland hu, fun e => ht.given (List.append_eq_nil_iff.mp e).1, ?_⟩
  rw [generated_append]
  exact ht.clear_append _

theorem Mortar.behind {t u : Text} (hu : Mortar u) (ht : Lowering.bland t = true)
    (clear : Clear (generated t)) : Mortar (t ++ u) := by
  refine ⟨bland_append ht hu.bland, fun e => hu.given (List.append_eq_nil_iff.mp e).2, ?_⟩
  rw [generated_append]
  exact clear.append hu.clear

/-- **Helper directives with fair arguments get solid answers.** -/
theorem solid_helperTag? {ds : Delimiters} (tame : Tame ds) {d : Directive}
    (hd : FairArgs true regions d) {new : Text}
    (h : helperTag? ds.start ds.stop d = some new) : Solid true regions new := by
  have given := hd.argumentList
  have opening : ∀ t : Text, Mortar t → Mortar (ds.start ++ t) := fun t ht =>
    ht.behind tame.start tame.clear
  have closing : Mortar (") " ++ ds.stop) := Mortar.append (by decide) tame.stop
  unfold helperTag? at h
  split at h
  · cases h
  · next value more args =>
    rw [args] at given
    obtain ⟨hv, others⟩ := List.forall_mem_cons.mp given
    split at h
    · obtain rfl := Option.some.inj h
      have pretty : Fair true regions (more.head?.getD "false") := by
        cases more with
        | nil => exact fair_of_bland (t := "false") (by decide)
        | cons p more => exact others p List.mem_cons_self
      have inside := hv.join_mortar (q := "), ") (by decide) pretty
      simpa only [List.append_assoc] using
        solid_between (opening " _hk_json((" (by decide)) inside closing
    · obtain rfl := Option.some.inj h
      have own : Fair true regions (d.args.getD []) := by
        cases e : d.args with
        | none => exact fair_of_bland (t := []) rfl
        | some a => exact hd a e
      have front : Mortar ("class=\"" ++ (ds.start ++ " _hk_class(")) :=
        Mortar.append (by decide) (opening " _hk_class(" (by decide)).bland
      simpa only [List.append_assoc] using
        solid_between front own.classExpression (closing.append (u := "\"") (by decide))

/-! ### Markers -/

theorem bland_markerName? {e name : Text} (h : markerName? e = some name) :
    bland name = true := by
  unfold markerName? at h
  split at h
  · cases h
  · cases h
  · cases h
    refine bland_of_forall fun c hc => ?_
    obtain ⟨x, -, rfl⟩ := List.mem_map.mp hc
    split
    · next known => constructor <;> rintro rfl <;> exact absurd known (by decide)
    · exact ⟨by decide, by decide⟩

theorem bland_onceKey? {t key : Text} {d : Directive} (h : onceKey? t d = some key) :
    bland key = true := by
  unfold onceKey? at h
  split at h
  · exact bland_markerName? h
  · obtain ⟨closer, -, rfl⟩ := Option.map_eq_some_iff.mp h
    refine bland_append (by decide) (bland_of_forall fun c hc => ?_)
    have digits := List.mem_of_mem_take hc
    constructor <;> rintro rfl <;> exact not_mem_fingerprint (by decide) _ digits

theorem mortar_marker {kind name : Text} (hk : bland kind = true) (hn : bland name = true) :
    Mortar (marker kind name) := by
  have front : Mortar "<!--hk:" := by decide
  exact (((front.append hk).append (by decide)).append hn).append (by decide)

theorem bland_closeMarker? {kind name : Text} {s s' : OpenMarkers} (hs : ∀ m ∈ s, bland m.2 = true)
    (h : closeMarker? kind s = some (name, s')) :
    bland name = true ∧ ∀ m ∈ s', bland m.2 = true := by
  induction s generalizing s' with
  | nil => cases h
  | cons m rest ih =>
    obtain ⟨k, other⟩ := m
    obtain ⟨own, others⟩ := List.forall_mem_cons.mp hs
    rw [closeMarker?] at h
    split at h
    · cases h
      exact ⟨own, others⟩
    · obtain ⟨⟨found, rest'⟩, hf, e⟩ := Option.map_eq_some_iff.mp h
      cases e
      obtain ⟨hn, hs'⟩ := ih others hf
      exact ⟨hn, List.forall_mem_cons.mpr ⟨own, hs'⟩⟩

/-- Markers are mortar, and the names of open markers stay bland. -/
theorem mortar_stackMarker? {t : Text} {s : OpenMarkers} {d : Directive} (hd : d.name ∈ stackNames)
    (hs : ∀ m ∈ s, bland m.2 = true) :
    (∀ new, (stackMarker? t s d).1 = some new → Mortar new) ∧
      ∀ m ∈ (stackMarker? t s d).2, bland m.2 = true := by
  have kinds : ∀ n ∈ stackNames, bland n = true ∧ bland ("end".toList ++ n.drop 3) = true := by
    decide
  obtain ⟨opens, closes⟩ := kinds d.name hd
  unfold stackMarker?
  split
  · split
    · exact ⟨nofun, hs⟩
    · next name hname =>
      obtain ⟨e, -, he⟩ := Option.bind_eq_some_iff.mp hname
      have plain := bland_markerName? he
      refine ⟨fun new h => Option.some.inj h ▸ mortar_marker opens plain, ?_⟩
      simp only
      split
      · exact hs
      · exact List.forall_mem_cons.mpr ⟨plain, hs⟩
  · split
    · split
      · exact ⟨nofun, hs⟩
      · next key hkey =>
        have plain := bland_onceKey? hkey
        exact ⟨fun new h => Option.some.inj h ▸ mortar_marker (by decide) plain,
          List.forall_mem_cons.mpr ⟨plain, hs⟩⟩
    · simp only
      split
      · exact ⟨nofun, hs⟩
      · next name rest hclose =>
        obtain ⟨plain, hs'⟩ := bland_closeMarker? hs hclose
        exact ⟨fun new h => Option.some.inj h ▸ mortar_marker closes plain, hs'⟩

/-! ### Includes -/

theorem Fair.literals {t : Text} (h : Fair loose regions t) {vs : List Text}
    (hv : literals? t = some vs) : ∀ v ∈ vs, Fair loose regions v := by
  unfold literals? at hv
  split at hv
  · next inner list =>
    intro v hm
    obtain ⟨item, hi, e⟩ := mem_of_mapM hv v hm
    have inside := h.strip.between ⟨by decide, fun _ => by decide⟩ list
    exact (inside.arguments item hi).literal e
  · obtain ⟨v, e, rfl⟩ := Option.map_eq_some_iff.mp hv
    exact List.forall_mem_singleton.mpr (h.literal e)

/-- Attributes with bland names and fair values. -/
def FairAttributes (regions : List Text) (as : List Attribute) : Prop :=
  ∀ a ∈ as, bland a.name = true ∧ Fair true regions a.value

theorem Fair.shownAttribute {a : Attribute} (hn : bland a.name = true)
    (hv : Fair true regions a.value) : Fair true regions (shownAttribute a) := by
  rw [Lowering.shownAttribute, List.append_assoc, List.append_assoc]
  exact ((hv.escape.mortar (by decide)).behind (by decide)).behind hn

theorem solid_includeTag {src : Text} {as : List Attribute} (hs : Fair true regions src)
    (ha : FairAttributes regions as) : Solid true regions (includeTag src as) := by
  have all : FairAttributes regions (⟨"src", src⟩ :: as) := by
    have name : bland "src" = true := by decide
    exact List.forall_mem_cons.mpr ⟨⟨name, hs⟩, ha⟩
  have shown : ∀ t ∈ (⟨"src", src⟩ :: as : List Attribute).map shownAttribute,
      Fair true regions t := by
    intro t ht
    obtain ⟨a, hm, rfl⟩ := List.mem_map.mp ht
    exact Fair.shownAttribute (all a hm).1 (all a hm).2
  have joined := fair_join (by decide : Mortar " ") shown
  unfold includeTag
  generalize join " " _ = x at joined ⊢
  rw [List.append_assoc]
  exact solid_between (by decide) joined (by decide)

/-- What an include directive asks for is fair, as its arguments are. -/
theorem FairArgs.request {d : Directive} (hd : FairArgs true regions d) {r : IncludeRequest}
    (h : includeRequest? d = some r) :
    Fair true regions r.src ∧ FairAttributes regions r.attributes ∧
      ∀ a ∈ r.rest, Fair true regions a := by
  have given := hd.argumentList
  have optional : FairAttributes regions [⟨"hk:optional", "true"⟩] :=
    List.forall_mem_singleton.mpr ⟨by decide, fair_of_bland (t := "true") (by decide)⟩
  unfold includeRequest? at h
  split at h
  · cases h
  · next first rest args =>
    rw [args] at given
    obtain ⟨hf, others⟩ := List.forall_mem_cons.mp given
    split at h
    · obtain ⟨src, hs, rfl⟩ := Option.map_eq_some_iff.mp h
      exact ⟨hf.literal hs, nofun, others⟩
    · split at h
      · obtain ⟨src, hs, rfl⟩ := Option.map_eq_some_iff.mp h
        exact ⟨hf.literal hs, optional, others⟩
      · split at h
        · split at h
          · cases h
          · cases h
          · next src list =>
            obtain rfl := Option.some.inj h
            exact ⟨hf.literals list src List.mem_cons_self, optional, others⟩
          · next src more _ list =>
            obtain rfl := Option.some.inj h
            obtain ⟨hs, later⟩ := List.forall_mem_cons.mp (hf.literals list)
            have name : bland "hk:first" = true := by decide
            exact ⟨hs, List.forall_mem_cons.mpr ⟨⟨name, fair_join (by decide) later⟩, optional⟩,
              others⟩
        · split at h
          · cases h
          · next second rest' =>
            obtain ⟨hsec, others'⟩ := List.forall_mem_cons.mp others
            obtain ⟨src, hs, rfl⟩ := Option.map_eq_some_iff.mp h
            refine ⟨hsec.literal hs, List.forall_mem_singleton.mpr ⟨?_, hf⟩, others'⟩
            simp only
            split <;> decide

/-- **Include directives with fair arguments get solid answers.** -/
theorem solid_includeTag? {d : Directive} (hd : FairArgs true regions d) {new : Text}
    (h : includeTag? d = some new) : Solid true regions new := by
  obtain ⟨r, hr, e⟩ := Option.map_eq_some_iff.mp h
  obtain ⟨hs, ha, others⟩ := hd.request hr
  split at e
  · obtain rfl := e
    exact solid_includeTag hs ha
  · next data _ rest =>
    obtain rfl := e
    rw [rest] at others
    have name : bland "hk:with" = true := by decide
    exact solid_includeTag hs (List.forall_mem_append.mpr ⟨ha, List.forall_mem_singleton.mpr
      ⟨name, fair_mappingTo _ (others data List.mem_cons_self)⟩⟩)

end Pagewright.Lowering
