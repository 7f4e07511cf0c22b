import Pagewright.Proofs.Assembly.Attribute
import Pagewright.Proofs.Assembly.Tiling
import Pagewright.Proofs.Lowering.Marking

/-! # Texts that start nothing

A text is mute if neither a tag nor a region begins in it, whatever follows it (`Mute`).  That can be
told from the text alone if it ends with a character behind which no tag goes on (`mute_closed`,
`mute_named`).  The tag that an include directive becomes is one tile (`tile_includeTag?`): its
attributes are escaped, so no bracket in them ends it.

Main definitions: `Mute`, `Closes`, `Hushed`. -/

namespace Pagewright.Assembly

open Text Directive Lowering

/-! ### Ends -/

/-- The characters behind which neither a tag nor a raw block goes on. -/
def closers : Text := ">)\x7d\"'"

/-- A text that ends with one of them. -/
def Closes (t : Text) : Prop := ∃ c ∈ closers, t.getLast? = some c

instance (t : Text) : Decidable (Closes t) := List.decidableBEx _ _

theorem Closes.behind (t : Text) {u : Text} (h : Closes u) : Closes (t ++ u) := by
  obtain ⟨c, hc, last⟩ := h
  exact ⟨c, hc, by rw [List.getLast?_append, last]; rfl⟩

theorem boundary?_closer {e : Char} (he : e ∈ closers) {t : Text} (ht : t ≠ []) (r : Text) :
    boundary? (t ++ e :: r) = boundary? (t ++ [e]) := by
  have closer : ∀ e ∈ closers, e = '>' ∨ Edge e := forall_mem_text (by decide)
  obtain rfl | edge := closer e he
  · exact boundary?_bracket t r
  · rw [boundary?_edge edge ht r, boundary?_edge edge ht []]

/-- A keyword tag holds none of the closers but at its end. -/
theorem exists_front {keyword : Text} (hk : Lettered keyword) (g : KeywordTag keyword) :
    ∃ front, g.shown = front ++ ['\x7d'] ∧ ∀ e ∈ closers, e ∉ front := by
  refine ⟨'\x7b' :: '%' :: (hyphen g.before ++ (g.lead ++ (keyword ++ (g.trail ++
    (hyphen g.behind ++ "%"))))), by simp [KeywordTag.shown, KeywordTag.inside], fun e he => ?_⟩
  have signs : ∀ e ∈ closers, (e ≠ '\x7b' ∧ e ≠ '%' ∧ e ≠ '-') ∧ isSpace e = false ∧
      isAsciiLetter e = false := forall_mem_text (by decide)
  obtain ⟨⟨bracket, percent, dash⟩, solid, unlettered⟩ := signs e he
  have dashes : ∀ b, e ∉ hyphen b := by
    intro b hb
    cases b with
    | true => exact dash (List.mem_singleton.mp hb)
    | false => cases hb
  have blank : ∀ u, isBlank u = true → e ∉ u := fun u hu hm =>
    Bool.false_ne_true (solid.symm.trans (List.all_eq_true.mp hu e hm))
  have letter : e ∉ keyword := fun hm =>
    Bool.false_ne_true (unlettered.symm.trans (hk.isAsciiLetter hm))
  simp only [List.mem_cons, List.mem_append, not_or]
  exact ⟨bracket, percent, dashes _, blank _ g.lead_blank, letter, blank _ g.trail_blank, dashes _,
    fun hm => percent (List.mem_singleton.mp hm)⟩

theorem keywordTag?_closer {keyword : Text} (hk : Lettered keyword) {e : Char} (he : e ∈ closers)
    {t : Text} (r : Text) (h : keywordTag? keyword (t ++ [e]) = none) :
    keywordTag? keyword (t ++ e :: r) = none := by
  rw [keywordTag?_eq_none_iff hk] at h ⊢
  intro g hg
  refine h g ?_
  obtain ⟨front, shown, free⟩ := exists_front hk g
  have whole : t ++ [e] <+: t ++ e :: r := ⟨r, by simp⟩
  obtain lt | le := Nat.lt_or_ge (t ++ [e]).length g.shown.length
  · -- Else the character stands in the tag, in front of its end.
    have inside : t ++ [e] <+: front := by
      have own := List.prefix_of_prefix_length_le whole hg (Nat.le_of_lt lt)
      have length : (front ++ ['\x7d']).length = front.length + 1 := List.length_append
      rw [shown] at own lt
      apply List.prefix_of_prefix_length_le own (List.prefix_append _ _)
      omega
    exact absurd (inside.subset (List.mem_append_right t (List.mem_singleton_self e))) (free e he)
  · exact List.prefix_of_prefix_length_le hg whole le

/-! ### Mute texts -/

/-- Neither a tag nor a region begins in a stretch, whatever follows it. -/
structure Mute (x : Text) : Prop where
  untagged : Still boundary? x
  unguarded : Still region? x

/-- Neither a boundary of a tag nor a raw tag is written in a text. -/
def Hushed (x : Text) : Prop := Nowhere boundary? x ∧ Untagged "raw" x

instance (x : Text) : Decidable (Hushed x) := inferInstanceAs (Decidable (_ ∧ _))

theorem Mute.tile {x : Text} (h : Mute x) : Tile x := .plain h.untagged h.unguarded

theorem Mute.role {x : Text} (h : Mute x) : roleOf x = .silent := roleOf_still h.untagged

theorem still_nil {α : Type} (find : Recogniser α) : Still find [] := fun _ _ h =>
  absurd (List.suffix_nil.mp h) (List.cons_ne_nil _ _)

theorem mute_nil : Mute [] := ⟨still_nil _, still_nil _⟩

/-- A stretch is still if it is so behind its first character, with which nothing begins. -/
theorem still_cons {α : Type} {find : Recogniser α} {c : Char} {x : Text}
    (first : ∀ r, find (c :: (x ++ r)) = none) (rest : Still find x) : Still find (c :: x) := by
  intro d v hv r
  obtain e | hv := List.suffix_cons_iff.mp hv
  · obtain ⟨rfl, rfl⟩ := List.cons.inj e
    exact first r
  · exact rest d v hv r

theorem keywordTag?_leads (keyword : Text) : Leads '\x7b' (keywordTag? keyword) := by
  intro c r hc
  unfold keywordTag?
  rw [show ("\x7b%".toList : Text) = '\x7b' :: "%".toList from rfl,
    dropLead?_cons_of_ne _ r hc.symm]
  rfl

/-- No region begins where there is neither a raw tag nor a verbatim directive. -/
theorem region?_none {t : Text} (raw : keywordTag? "raw" t = none)
    (word : wholeWord? "@verbatim" t = none) : region? t = none := by
  unfold region?
  rw [raw, word]
  rfl

theorem region?_unmarked {c : Char} {v : Text} (hc : c ≠ '@')
    (raw : keywordTag? "raw" (c :: v) = none) : region? (c :: v) = none :=
  region?_none raw (wholeWord?_leads "verbatim" c v hc)

/-- A text without the characters that begin tags and regions. -/
theorem mute_bare {x : Text} (h : ∀ c ∈ "<\x7b@".toList, c ∉ x) : Mute x := by
  refine ⟨still_of_leads boundary?_leads (h '<' (by decide)), fun c v hv r => ?_⟩
  have mem : c ∈ x := hv.subset List.mem_cons_self
  refine region?_unmarked (fun e => h '@' (by decide) (e ▸ mem)) ?_
  exact keywordTag?_leads _ c _ fun e => h '\x7b' (by decide) (e ▸ mem)

/-- Nothing begins with the last character of a text that closes. -/
theorem still_closed {α : Type} {find : Recogniser α} {x : Text} (closes : Closes x)
    (alone : ∀ e ∈ closers, ∀ r, find (e :: r) = none)
    (behind : ∀ e ∈ closers, ∀ t, t ≠ [] → t ++ [e] <:+ x → ∀ r, find (t ++ e :: r) = none) :
    Still find x := by
  obtain ⟨e, he, last⟩ := closes
  obtain ⟨w, rfl⟩ := List.getLast?_eq_some_iff.mp last
  intro c v hv r
  obtain hv' | ⟨s, given, inside, e'⟩ := suffix_append_cases hv
  · obtain e' | hv' := List.suffix_cons_iff.mp hv'
    · obtain ⟨rfl, rfl⟩ := List.cons.inj e'
      exact alone c he r
    · exact absurd (List.suffix_nil.mp hv') (List.cons_ne_nil _ _)
  · rw [e', List.append_assoc, List.singleton_append]
    exact behind e he s given (e' ▸ hv) r

/-- No region begins in a text that closes, if there is neither an at sign nor a raw tag in it. -/
theorem unguarded_closed {x : Text} (closes : Closes x) (plain : '@' ∉ x)
    (h : Untagged "raw" x) : Still region? x := by
  have quiet : ∀ e ∈ closers, e ≠ '\x7b' ∧ e ≠ '@' := forall_mem_text (by decide)
  refine still_closed closes (fun e he r => ?_) fun e he t given ht r => ?_
  · exact region?_unmarked (quiet e he).2 (keywordTag?_leads _ e r (quiet e he).1)
  · obtain ⟨c, v, rfl⟩ := List.exists_cons_of_ne_nil given
    have unmarked : c ≠ '@' := fun e' => plain (ht.subset (e' ▸ List.mem_cons_self))
    exact region?_unmarked unmarked (keywordTag?_closer lettered_raw he r (h _ ht))

/-- **A text that closes is mute** if it is hushed by itself. -/
theorem mute_closed {x : Text} (closes : Closes x) (plain : '@' ∉ x) (h : Hushed x) : Mute x := by
  have quiet : ∀ e ∈ closers, e ≠ '<' := forall_mem_text (by decide)
  refine ⟨still_closed closes (fun e he r => boundary?_leads e r (quiet e he)) ?_,
    unguarded_closed closes plain h.2⟩
  intro e he t given ht r
  rw [boundary?_closer he given r]
  exact h.1 _ ht

/-! ### Directives as they are written -/

theorem not_mem_name {n : Text} (hn : name? n = some n) {c : Char} (first : startsName c = false)
    (word : isWord c = false) : c ∉ n := by
  obtain ⟨d, w, rfl, starts, words⟩ := name?_eq_some_self hn
  intro hm
  obtain rfl | hm := List.mem_cons.mp hm
  · exact Bool.false_ne_true (first.symm.trans starts)
  · exact Bool.false_ne_true (word.symm.trans (List.all_eq_true.mp words c hm))

/-- Behind a name that `@verbatim` does not begin with, no verbatim directive stands. -/
theorem wholeWord?_verbatim {n : Text} (hn : name? n = some n) (hv : ¬ n <+: "verbatim".toList)
    (r : Text) : wholeWord? "@verbatim" ('@' :: (n ++ r)) = none := by
  have lead : "@verbatim".toList = '@' :: "verbatim".toList := by decide
  unfold wholeWord?
  rw [lead, dropLead?, if_pos rfl]
  cases hd : dropLead? "verbatim" (n ++ r) with
  | none => rfl
  | some rest =>
    have whole := eq_append_of_dropLead? hd
    obtain ⟨s, e, -⟩ | ⟨s, rfl, e⟩ := List.append_eq_append_iff.mp whole
    · exact absurd ⟨s, e.symm⟩ hv
    · cases s with
      | nil => exact absurd (by rw [List.append_nil]) hv
      | cons c s =>
        -- The name goes on behind the word.
        obtain ⟨d, w, hw, first, words⟩ := name?_eq_some_self hn
        have word : isWord c = true := by
          have inside : c ∈ w := by
            have second : "verbatim".toList = 'v' :: "erbatim".toList := by decide
            rw [second, List.cons_append] at hw
            rw [← (List.cons.inj hw).2]
            simp
          exact List.all_eq_true.mp words c inside
        rw [e]
        simp [word]

/-- A text that begins with an at sign and a name is mute if it is so behind the sign, unless
`@verbatim` begins with the name. -/
theorem mute_named {n behind : Text} (hn : name? n = some n) (hv : ¬ n <+: "verbatim".toList)
    (tail : Mute (n ++ behind)) : Mute ('@' :: (n ++ behind)) := by
  refine ⟨still_cons (fun r => boundary?_leads _ _ (by decide)) tail.untagged,
    still_cons (fun r => ?_) tail.unguarded⟩
  refine region?_none (keywordTag?_leads _ _ _ (by decide)) ?_
  rw [List.append_assoc]
  exact wholeWord?_verbatim hn hv _

/-- **A directive is mute where it is written**, if it is hushed and `@verbatim` does not begin with
its name. -/
theorem mute_directive {p : Part} {n : Text} (sound : p.Sound) (hp : p.named? = some n)
    (hv : ¬ n <+: "verbatim".toList) (h : Hushed p.shown) : Mute p.shown := by
  cases p with
  | text t => cases hp
  | word m =>
    obtain rfl := Option.some.inj hp
    have signs : ∀ c ∈ "<\x7b@".toList, startsName c = false ∧ isWord c = false :=
      forall_mem_text (by decide)
    have bare : Mute m := mute_bare fun c hc => not_mem_name sound (signs c hc).1 (signs c hc).2
    have whole : (Part.word m).shown = '@' :: (m ++ []) := by rw [List.append_nil]; rfl
    rw [whole]
    apply mute_named sound hv
    rwa [List.append_nil]
  | call m g args =>
    obtain rfl := Option.some.inj hp
    obtain ⟨hn, -, hg, -, plain⟩ := sound
    have closes : Closes (m ++ (g ++ '(' :: (args ++ [')']))) :=
      .behind m (.behind g (.behind ['('] (.behind args (by decide))))
    have blank : '@' ∉ g := fun hm => absurd (List.all_eq_true.mp hg _ hm) (by decide)
    have unmarked : '@' ∉ m ++ (g ++ '(' :: (args ++ [')'])) :=
      not_mem_append (at_not_mem_name hn) (not_mem_append blank
        (not_mem_append (t := ['(']) (by decide) (not_mem_append plain (by decide))))
    have behind : m ++ (g ++ '(' :: (args ++ [')'])) <:+ (Part.call m g args).shown :=
      List.suffix_cons _ _
    exact mute_named hn hv (mute_closed closes unmarked ⟨h.1.of_suffix behind, h.2.of_suffix behind⟩)

/-! ### Tags -/

/-- A tag up to its body is one tile, if no region begins in it. -/
theorem AttributeText.tile {a : Text} (h : AttributeText a)
    (unguarded : Still region? (tagOpening a)) : Tile (tagOpening a) := by
  have bare : '<' ∉ "include".toList ++ (a ++ ['>']) :=
    not_mem_append (by decide) (not_mem_append h.bare (by decide))
  have parted : ∀ r, ((a ++ '>' :: r).head?.map isWord).getD false = false := by
    cases a with
    | nil => exact fun r => rfl
    | cons c a => exact fun r => h.parted
  exact .opening rfl (fun r => boundary?_tagLead (parted r)) h.closes
    (still_of_leads boundary?_leads bare) unguarded

theorem tile_tagClosing : Tile tagClosing :=
  .closing boundary?_tagClosing
    (unguarded_closed (by decide) (by decide) (by unfold tagClosing; decide))

/-- Attributes go on behind a stretch. -/
def GoesOn (u : Text) : Prop :=
  ∀ r, attributesLength? none (u ++ r) = (attributesLength? none r).map (· + u.length)

theorem GoesOn.append {u v : Text} (hu : GoesOn u) (hv : GoesOn v) : GoesOn (u ++ v) := by
  intro r
  rw [List.append_assoc, hu, hv, Option.map_map, List.length_append]
  refine congrArg (Option.map · _) (funext fun n => ?_)
  simp only [Function.comp]
  omega

/-- Attributes that go on behind all of a text are closed by a bracket behind it. -/
theorem GoesOn.opens {a : Text} (h : GoesOn a) (parted : (a.head?.map isWord).getD false = false) :
    Opens a := by
  refine ⟨parted, ?_⟩
  rw [h, attributesLength?, if_pos rfl, Option.map_some, Nat.zero_add]

theorem goesOn_nil : GoesOn [] := fun r => by
  cases h : attributesLength? none r <;> simp [h]

/-- Attributes go on behind a character that is neither a quote nor the bracket. -/
theorem goesOn_char {c : Char} (h : c ∉ ">\"'".toList) : GoesOn [c] := by
  have other : ∀ d ∈ ">\"'".toList, c ≠ d := fun d hd e => h (e ▸ hd)
  have plain : ¬ (c = '"' ∨ c = '\'') := fun e =>
    e.elim (other _ (by decide)) (other _ (by decide))
  intro r
  rw [List.singleton_append, attributesLength?, if_neg (other '>' (by decide)), if_neg plain]
  rfl

theorem goesOn_bare : ∀ {u : Text}, (∀ c ∈ ">\"'".toList, c ∉ u) → GoesOn u
  | [], _ => goesOn_nil
  | c :: u, h => by
    have first : c ∉ ">\"'".toList := fun hc => h c hc List.mem_cons_self
    exact (goesOn_char first).append (goesOn_bare fun d hd hm => h d hd (List.mem_cons_of_mem c hm))

/-- Attributes go on behind a value in quotes, which may hold the bracket. -/
theorem goesOn_quoted {q : Char} (quote : q = '"' ∨ q = '\'') {v : Text} (h : q ∉ v) :
    GoesOn (q :: (v ++ [q])) := by
  intro r
  have other : q ≠ '>' := by
    obtain rfl | rfl := quote
    · decide
    · decide
  rw [List.cons_append, attributesLength?, if_neg other, if_pos quote, List.append_assoc,
    List.singleton_append, attributesLength?_quoted r h, Option.map_map]
  refine congrArg (Option.map · _) (funext fun n => ?_)
  simp only [Function.comp, List.length_cons, List.length_append, List.length_nil]
  omega

theorem goesOn_join {sep : Text} (hsep : GoesOn sep) {us : List Text} (h : ∀ u ∈ us, GoesOn u) :
    GoesOn (join sep us) := by
  induction us with
  | nil => exact goesOn_nil
  | cons u us ih =>
    obtain ⟨first, others⟩ := List.forall_mem_cons.mp h
    cases us with
    | nil => simpa [join, List.intercalate] using first
    | cons v us =>
      rw [join_cons_cons]
      exact first.append (hsep.append (ih others))

/-- Attributes with names that hold neither quotes nor brackets. -/
def BareNames (as : List Attribute) : Prop := ∀ a ∈ as, ∀ c ∈ "<>\"'".toList, c ∉ a.name

theorem BareNames.cons {name : Text} (value : Text) {as : List Attribute}
    (h : ∀ c ∈ "<>\"'".toList, c ∉ name) (rest : BareNames as) : BareNames (⟨name, value⟩ :: as) :=
  List.forall_mem_cons.mpr ⟨h, rest⟩

/-- Attributes go on behind one of them, whose value may hold the bracket. -/
theorem goesOn_quotedAttribute {n v : Text} (h : ∀ c ∈ ">\"'".toList, c ∉ n) (free : '"' ∉ v) :
    GoesOn (quotedAttribute n v) := by
  have value := goesOn_quoted (.inl rfl) free
  have shape : quotedAttribute n v = n ++ ("=".toList ++ ('"' :: (v ++ ['"']))) := by
    rw [quotedAttribute, List.append_assoc, List.append_assoc]
    rfl
  rw [shape]
  exact (goesOn_bare h).append ((goesOn_bare (forall_mem_text (by decide))).append value)

theorem goesOn_quotedAttributes {as : List (Text × Text)}
    (h : ∀ a ∈ as, AttributeName a.1 ∧ '"' ∉ a.2) : GoesOn (quotedAttributes as) := by
  have blank : GoesOn [' '] := goesOn_char (by decide)
  have signs : ∀ c ∈ ">\"'".toList, isAttributeChar c = false := forall_mem_text (by decide)
  induction as with
  | nil => exact blank
  | cons a as ih =>
    obtain ⟨⟨named, free⟩, others⟩ := List.forall_mem_cons.mp h
    have first := goesOn_quotedAttribute (fun c hc => named.not_mem (signs c hc)) free
    have shape : quotedAttributes (a :: as) =
        [' '] ++ (quotedAttribute a.1 a.2 ++ quotedAttributes as) := by
      simp [quotedAttributes]
    rw [shape]
    exact blank.append (first.append (ih others))

/-- **Attributes of any values without double quotes** are closed by a bracket behind them. -/
theorem opens_quotedAttributes {as : List (Text × Text)}
    (h : ∀ a ∈ as, AttributeName a.1 ∧ '"' ∉ a.2) : Opens (quotedAttributes as ++ ['/']) := by
  refine ((goesOn_quotedAttributes h).append (goesOn_char (by decide))).opens ?_
  cases as with
  | nil => rfl
  | cons a as => rfl

theorem goesOn_shownAttribute {a : Attribute} (h : ∀ c ∈ "<>\"'".toList, c ∉ a.name) :
    GoesOn (shownAttribute a) := by
  have all : ∀ c ∈ ">\"'".toList, c ∈ "<>\"'".toList := forall_mem_text (by decide)
  exact goesOn_quotedAttribute (fun c hc => h c (all c hc))
    (Html.not_mem_escape (by decide : '"' ∈ "<>\"".toList) a.value)

theorem includeTag_eq (src : Text) (as : List Attribute) :
    includeTag src as = tagAlone (writtenAttributes src as) := by
  have close : " />".toList = " ".toList ++ (['/'] ++ ['>']) := rfl
  have front : "<include ".toList = tagLead ++ [' '] := rfl
  unfold includeTag tagAlone tagOpening writtenAttributes
  rw [close, front]
  generalize join " ".toList _ = all
  simp only [List.append_assoc, List.cons_append, List.nil_append]

/-- Attributes of such names are read up to the end of the tag. -/
theorem attributeText_written (src : Text) {as : List Attribute} (named : BareNames as) :
    AttributeText (writtenAttributes src as ++ ['/']) := by
  have names : BareNames (⟨"src", src⟩ :: as) := .cons src (forall_mem_text (by decide)) named
  have inside : GoesOn (join " " ((⟨"src", src⟩ :: as : List Attribute).map shownAttribute)) := by
    refine goesOn_join (goesOn_bare (forall_mem_text (by decide))) fun u hu => ?_
    obtain ⟨a, ha, rfl⟩ := List.mem_map.mp hu
    exact goesOn_shownAttribute (names a ha)
  have bare : '<' ∉ join " " ((⟨"src", src⟩ :: as : List Attribute).map shownAttribute) := by
    refine not_mem_join (by decide) fun u hu => ?_
    obtain ⟨a, ha, rfl⟩ := List.mem_map.mp hu
    have value : '<' ∉ Html.escape a.value := Html.not_mem_escape (by decide) a.value
    exact not_mem_append (not_mem_append (not_mem_append (names a ha '<' (by decide)) (by decide))
      value) (by decide)
  have shape : writtenAttributes src as ++ ['/'] =
      [' '] ++ (join " " ((⟨"src", src⟩ :: as : List Attribute).map shownAttribute) ++ " /") := by
    rw [writtenAttributes, List.cons_append, List.append_assoc]
    rfl
  rw [shape]
  generalize join " ".toList _ = all at inside bare ⊢
  have blank : GoesOn [' '] := goesOn_bare (forall_mem_text (by decide))
  have slash : GoesOn " /".toList := goesOn_bare (forall_mem_text (by decide))
  have closes := (blank.append (inside.append slash)) ['>']
  have stop : attributesLength? none ['>'] = some 0 := rfl
  rw [stop, Option.map_some, Nat.zero_add] at closes
  have free : '<' ∉ [' '] ++ (all ++ " /".toList) :=
    not_mem_append (by decide) (not_mem_append bare (by decide))
  exact ⟨free, rfl, closes⟩

/-- An include tag with attributes of such names is one tile. -/
theorem tile_includeTag {src : Text} {as : List Attribute} (named : BareNames as)
    (unguarded : Still region? (includeTag src as)) : Tile (includeTag src as) := by
  rw [includeTag_eq] at unguarded ⊢
  exact (attributeText_written src named).tile unguarded

theorem closes_includeTag (src : Text) (as : List Attribute) : Closes (includeTag src as) :=
  Closes.behind _ (by decide)

/-- The attributes that an include directive asks for have such names. -/
theorem bareNames_request {d : Directive} {r : IncludeRequest} (h : includeRequest? d = some r) :
    BareNames r.attributes := by
  have optional : BareNames [⟨"hk:optional", "true"⟩] :=
    .cons _ (forall_mem_text (by decide)) nofun
  unfold includeRequest? at h
  split at h
  · cases h
  · next first rest args =>
    split at h
    · obtain ⟨src, hs, rfl⟩ := Option.map_eq_some_iff.mp h
      exact nofun
    · split at h
      · obtain ⟨src, hs, rfl⟩ := Option.map_eq_some_iff.mp h
        exact optional
      · split at h
        · split at h
          · cases h
          · cases h
          · obtain rfl := Option.some.inj h
            exact optional
          · obtain rfl := Option.some.inj h
            exact .cons _ (forall_mem_text (by decide)) optional
        · split at h
          · cases h
          · obtain ⟨src, hs, rfl⟩ := Option.map_eq_some_iff.mp h
            refine .cons _ ?_ nofun
            split
            · exact forall_mem_text (by decide)
            · exact forall_mem_text (by decide)

/-- **What an include directive becomes is one tile.** -/
theorem tile_includeTag? {d : Directive} {new : Text} (h : includeTag? d = some new)
    (plain : '@' ∉ new) (untagged : Untagged "raw" new) : Tile new := by
  obtain ⟨r, hr, e⟩ := Option.map_eq_some_iff.mp h
  have named : BareNames r.attributes := bareNames_request hr
  obtain ⟨src, as, bare, rfl⟩ : ∃ src as, BareNames as ∧ new = includeTag src as := by
    split at e
    · exact ⟨_, _, named, e.symm⟩
    · next data more _ =>
      have last : BareNames [⟨"hk:with", mappingExpression data⟩] :=
        .cons _ (forall_mem_text (by decide)) nofun
      exact ⟨_, _, List.forall_mem_append.mpr ⟨named, last⟩, e.symm⟩
  exact tile_includeTag bare (unguarded_closed (closes_includeTag src as) plain untagged)

end Pagewright.Assembly

/-! ## Include tags are read as they were written

An include tag is written with its source and further attributes.  No escaped value holds a bracket, so
the tag ends where it was closed and is the only one in its text (`includeTags_tagOpening`); its
attributes are those that were written (`includeTag_read`). -/

namespace Pagewright.Assembly

open Text Directive Lowering

/-- A bracket in front begins no region, so the boundary there counts. -/
theorem boundaries_opening {lead r : Text} (bracket : lead.head? = some '<')
    (found : boundary? (lead ++ r) = some (false, lead.length)) :
    ∃ held, boundaries (lead ++ r) = ⟨0, lead.length, false⟩ :: held ∧
      ∀ b ∈ held, b.start < (lead ++ r).length := by
  obtain ⟨v, rfl⟩ := List.head?_eq_some_iff.mp bracket
  have region : region? ('<' :: (v ++ r)) = none :=
    region?_unmarked (by decide) (keywordTag?_leads "raw" _ _ (by decide))
  have apart : ∀ s ∈ spansFrom 0 ('<' :: v ++ r), s.2 ≤ 0 ∨ 0 < s.1 := by
    intro s hs
    rw [List.cons_append, spansFrom, piecesFrom_char 0 region] at hs
    have later : 1 ≤ s.1 := le_of_mem_spansFrom s hs
    exact Or.inr later
  refine ⟨(piecesFrom boundary? (0 + ('<' :: v).length) 0 r).filterMap
    (outside (spansFrom 0 ('<' :: v ++ r))), ?_, fun b hb => ?_⟩
  · rw [boundaries_eq, piecesFrom_hit boundary? 0 (List.cons_ne_nil _ _) found, List.filterMap_cons,
      outside_hit apart, Nat.zero_add]
  · obtain ⟨p, hp, e⟩ := List.mem_filterMap.mp hb
    cases p with
    | char c => cases e
    | hit closing start stop =>
      have inside := start_lt_of_mem_piecesFrom hp
      have own : b.start = start := by
        rw [outside] at e
        split at e
        · cases e
        · exact (congrArg Boundary.start (Option.some.inj e)).symm
      rw [own, List.length_append]
      omega

/-- **A tag that stands alone is the only tag of its text**, whatever tags and regions begin inside it.
-/
theorem includeTags_tagOpening {a attributes : Text} (h : Opens a)
    (alone : selfClosed? a = some attributes) :
    includeTags (tagOpening a) = [⟨0, (tagOpening a).length, attributes, none⟩] := by
  have stop := h.tagEnd?_tag [] []
  have cut := slice_tagOpening a [] []
  rw [List.nil_append, List.append_nil, List.length_nil, Nat.zero_add] at stop cut
  obtain ⟨held, bounds, inside⟩ :=
    @boundaries_opening tagLead (a ++ ['>']) rfl (boundary?_tagLead (h.head_parted []))
  have length : 8 + a.length + 1 = (tagOpening a).length := (length_tagOpening a).symm
  have behind := @tagsFrom_behind (tagOpening a) _ [] _ inside
  rw [List.append_nil] at behind
  unfold includeTags
  refine (congrArg (tagsFrom _ 0) bounds).trans ?_
  refine (tagsFrom_alone held (Nat.le_refl 0) stop (cut.symm ▸ alone)).trans ?_
  rw [length]
  exact congrArg _ behind

theorem includeTags_tagAlone {a : Text} (h : AttributeText (a ++ ['/'])) :
    includeTags (tagAlone a) = [⟨0, (tagAlone a).length, a, none⟩] :=
  includeTags_tagOpening h.opens (selfClosed?_slash a)

/-- **An include tag is read as it was written**, whatever its source and its values are: it is the
only tag of its text and stands alone, and its attributes are the source and the values under their
names, in order. -/
theorem includeTag_read (src : Text) {as : List Attribute}
    (reserved : ∀ a ∈ as, ReservedName a.name) (distinct : (as.map Attribute.name).Nodup) :
    ∃ attributes, includeTag src as = tagAlone attributes ∧
      includeTags (includeTag src as) = [⟨0, (includeTag src as).length, attributes, none⟩] ∧
      parseAttributes attributes = ("src".toList, src) :: as.map fun a => (a.name, a.value) := by
  have bare : BareNames as := fun a ha => (reserved a ha).attributeName.bare
  refine ⟨writtenAttributes src as, includeTag_eq src as, ?_,
    parseAttributes_written src reserved distinct⟩
  rw [includeTag_eq]
  exact includeTags_tagAlone (attributeText_written src bare)

/-- A source of markup and references, and values that hold quotes, tags and raw blocks. -/
def strangeAttributes : List Attribute :=
  [⟨"hk:when", "a > '&gt;' && \"<include src='x' />\""⟩, ⟨"hk:é.-:_", "</include>\x7b% raw %\x7d&#x27;\n"⟩]

theorem includeTag_read_strange :
    (∀ a ∈ strangeAttributes, ReservedName a.name) ∧
      (strangeAttributes.map Attribute.name).Nodup ∧
      ∃ attributes, includeTag "\">/&amp;" strangeAttributes = tagAlone attributes ∧
        includeTags (includeTag "\">/&amp;" strangeAttributes) =
          [⟨0, (includeTag "\">/&amp;" strangeAttributes).length, attributes, none⟩] ∧
        parseAttributes attributes =
          ("src".toList, "\">/&amp;".toList) :: strangeAttributes.map fun a => (a.name, a.value) := by
  have reserved : ∀ a ∈ strangeAttributes, ReservedName a.name := by
    refine List.forall_mem_cons.mpr ⟨⟨"when", rfl, forall_mem_text (by decide)⟩,
      List.forall_mem_singleton.mpr ?_⟩
    exact ⟨"é.-:_", rfl, forall_mem_text (by decide +kernel)⟩
  have distinct : (strangeAttributes.map Attribute.name).Nodup := by decide
  exact ⟨reserved, distinct, includeTag_read "\">/&amp;" reserved distinct⟩

end Pagewright.Assembly
