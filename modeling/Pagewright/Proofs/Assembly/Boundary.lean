import Pagewright.Proofs.Assembly.Nesting
import Pagewright.Proofs.Assembly.Stretch
import Pagewright.Proofs.Assembly.Untagged

/-! # Boundaries of tags

The boundaries of a text are those of its stretches, where the stretches are parted by brackets
(`boundsFrom_append`).  The attributes of a tag may hold brackets of their own, in quotes: such a tag
begins where it is written and ends behind its attributes (`Opens`), and what begins in its attributes
is passed over.  A search from boundary to boundary that comes through the body of a tag comes through
the tag (`Opens.passes_closing?`, `Opens.passes_tagsFrom`).

Main definitions: `boundsFrom`, `Opens`, `Passes`. -/

namespace Pagewright.Assembly

open Text Directive

/-! ### Boundaries in a text -/

/-- The boundaries of a text that starts at an offset and has no raw or verbatim region. -/
def boundsFrom (pos : Nat) (t : Text) : List Boundary :=
  (piecesFrom boundary? pos 0 t).filterMap fun
    | .char _ => none
    | .hit closing start stop => some ⟨start, stop, closing⟩

theorem boundaries_unprotected {t : Text} (h : Lowering.protectedSpans t = []) :
    boundaries t = boundsFrom 0 t := by
  unfold boundaries boundsFrom
  rw [h]
  rfl

theorem boundsFrom_quiet {u r : Text} (pos : Nat)
    (h : ∀ c v, c :: v <:+ u → boundary? (c :: v ++ r) = none) :
    boundsFrom pos (u ++ r) = boundsFrom (pos + u.length) r := by
  unfold boundsFrom
  rw [piecesFrom_quiet boundary? pos u r h, List.filterMap_append, List.filterMap_map]
  simp

theorem boundsFrom_bare {u : Text} (h : '<' ∉ u) (pos : Nat) (r : Text) :
    boundsFrom pos (u ++ r) = boundsFrom (pos + u.length) r :=
  boundsFrom_quiet pos (boundary?_leads.quiet h r)

theorem boundsFrom_hit {u r : Text} {closing : Bool} (pos : Nat) (hu : u ≠ [])
    (h : boundary? (u ++ r) = some (closing, u.length)) :
    boundsFrom pos (u ++ r) = ⟨pos, pos + u.length, closing⟩ :: boundsFrom (pos + u.length) r := by
  unfold boundsFrom
  rw [piecesFrom_hit boundary? pos hu h, List.filterMap_cons]

theorem boundary?_tagLead {r : Text} (h : (r.head?.map isWord).getD false = false) :
    boundary? (tagLead ++ r) = some (false, 8) := by
  have name : dropName? "include" ("include" ++ r) = some r := rfl
  refine (boundary?_opening (t := "include" ++ r) nofun).trans ?_
  rw [name, Option.bind_some, h]
  rfl

theorem boundary?_tagClosing (r : Text) : boundary? (tagClosing ++ r) = some (true, 10) := by
  have length : ('<' :: '/' :: ("include>" ++ r : Text)).length - r.length = 10 := by
    simp
    omega
  exact (boundary?_closing ("include>" ++ r)).trans (congrArg (fun n => some (true, n)) length)

theorem boundsFrom_opening {r : Text} (h : (r.head?.map isWord).getD false = false) (pos : Nat) :
    boundsFrom pos (tagLead ++ r) = ⟨pos, pos + 8, false⟩ :: boundsFrom (pos + 8) r :=
  boundsFrom_hit (u := tagLead) pos (by decide) (boundary?_tagLead h)

theorem boundsFrom_closing (pos : Nat) (r : Text) :
    boundsFrom pos (tagClosing ++ r) = ⟨pos, pos + 10, true⟩ :: boundsFrom (pos + 10) r :=
  boundsFrom_hit (u := tagClosing) pos (by decide) (boundary?_tagClosing r)

/-- A bracket ends a tag or keeps what stands in front of it from being one. -/
theorem boundary?_bracket (t r : Text) : boundary? (t ++ '>' :: r) = boundary? (t ++ ['>']) := by
  have letters : ∀ l ∈ "include".toList, isLetter l '>' = false := forall_mem_text (by decide)
  have name : ∀ t r, dropName? "include" (t ++ '>' :: r) =
      (dropName? "include" t).map (· ++ '>' :: r) := dropName?_parted letters
  cases t with
  | nil =>
    rw [List.nil_append, boundary?_leads _ _ (by decide)]
    exact (boundary?_leads '>' [] (by decide)).symm
  | cons c t =>
    by_cases hc : c = '<'
    · subst hc
      by_cases ht : t.head? = some '/'
      · obtain ⟨t, rfl⟩ := List.head?_eq_some_iff.mp ht
        simp only [List.cons_append]
        rw [boundary?_closing, boundary?_closing, name, name]
        cases dropName? "include" t with
        | none => rfl
        | some rest =>
          have blanks : ∀ r, stripLeft (rest ++ '>' :: r) = stripLeft rest ++ '>' :: r :=
            fun r => stripLeft_parted (by decide) rest r
          simp only [Option.map_some, Option.bind_some, blanks]
          cases stripLeft rest with
          | nil =>
            simp [dropLead?]
            omega
          | cons d s =>
            by_cases hd : '>' = d
            · subst hd
              simp [dropLead?]
              omega
            · simp [dropLead?, hd]
      · have front : ∀ r, (t ++ '>' :: r).head? ≠ some '/' := by
          intro r
          cases t with
          | nil => exact fun e => absurd (Option.some.inj e) (by decide)
          | cons d t => exact ht
        simp only [List.cons_append]
        rw [boundary?_opening (front r), boundary?_opening (front []), name, name]
        cases dropName? "include" t with
        | none => rfl
        | some rest => cases rest <;> rfl
    · rw [List.cons_append, List.cons_append, boundary?_leads c _ hc, boundary?_leads c _ hc]

/-- Two texts are gone over one after the other, where a bracket ends the first or begins the second.
-/
theorem boundsFrom_append {u r : Text} (parted : u.getLast? = some '>' ∨ ∀ c ∈ r.head?, c = '<')
    (pos : Nat) : boundsFrom pos (u ++ r) = boundsFrom pos u ++ boundsFrom (pos + u.length) r := by
  have same : ∀ c v, c :: v <:+ u → boundary? (c :: v ++ r) = boundary? (c :: v) := by
    intro c v hv
    obtain last | first := parted
    · obtain ⟨w, rfl⟩ := List.getLast?_eq_some_iff.mp last
      obtain hv | ⟨m, -, -, e⟩ := suffix_append_cases hv
      · have only : c :: v = ['>'] := by
          obtain e | hv := List.suffix_cons_iff.mp hv
          · exact e
          · exact absurd (List.suffix_nil.mp hv) (List.cons_ne_nil c v)
        rw [only]
        exact boundary?_bracket [] r
      · rw [e, List.append_assoc, List.singleton_append]
        exact boundary?_bracket m r
    · cases r with
      | nil => rw [List.append_nil]
      | cons x r =>
        obtain rfl := first x rfl
        exact boundary?_edge (by decide) (List.cons_ne_nil c v) r
  unfold boundsFrom
  rw [piecesFrom_append u pos 0 (Nat.zero_le _) same fun c v a n _ => boundary?_bounded _ _ _,
    List.filterMap_append]

theorem boundsFrom_nowhere {u : Text} (h : Nowhere boundary? u) (pos : Nat) :
    boundsFrom pos u = [] := by
  have quiet : ∀ c v, c :: v <:+ u → boundary? (c :: v ++ []) = none := fun c v hv => by
    rw [List.append_nil]
    exact h _ hv
  have all := boundsFrom_quiet pos quiet
  rwa [List.append_nil] at all

/-- The boundaries of a text start in it. -/
theorem start_boundsFrom {pos : Nat} {t : Text} : ∀ b ∈ boundsFrom pos t,
    b.start < pos + t.length := by
  intro b hb
  obtain ⟨p, hp, e⟩ := List.mem_filterMap.mp hb
  cases p with
  | char c => cases e
  | hit closing start stop =>
    obtain rfl := Option.some.inj e
    exact start_lt_of_mem_piecesFrom hp

/-! ### Opening tags -/

theorem tagOpening_append (a r : Text) : tagOpening a ++ r = tagLead ++ (a ++ '>' :: r) := by
  rw [tagOpening, List.append_assoc, List.append_assoc, List.singleton_append]

theorem length_tagOpening (a : Text) : (tagOpening a).length = 8 + a.length + 1 := by
  have eight : tagLead.length = 8 := by decide
  rw [tagOpening, List.length_append, List.length_append, eight, List.length_singleton,
    Nat.add_assoc]

theorem getLast?_tagOpening (a : Text) : (tagOpening a).getLast? = some '>' := by
  rw [tagOpening, ← List.append_assoc, List.getLast?_concat]

theorem slice_tagOpening (a pre r : Text) :
    slice (pre ++ (tagOpening a ++ r)) (pre.length + 8) (pre.length + 8 + a.length) = a := by
  have cut := slice_middle (pre ++ tagLead) a ('>' :: r)
  rw [List.append_assoc, List.length_append] at cut
  rw [tagOpening_append]
  exact cut

/-- What follows the bracket of a tag does not count. -/
theorem attributesLength?_append (r : Text) : ∀ {q : Option Char} {t : Text} {n : Nat},
    attributesLength? q t = some n → attributesLength? q (t ++ r) = some n
  | none, [], n, h => by cases h
  | some q, [], n, h => by cases h
  | some q, c :: t, n, h => by
    rw [attributesLength?] at h
    obtain ⟨m, hm, rfl⟩ := Option.map_eq_some_iff.mp h
    rw [List.cons_append, attributesLength?, attributesLength?_append r hm]
    rfl
  | none, c :: t, n, h => by
    rw [attributesLength?] at h
    rw [List.cons_append, attributesLength?]
    split at h
    · next hc =>
      rw [if_pos hc]
      exact h
    · next hc =>
      obtain ⟨m, hm, rfl⟩ := Option.map_eq_some_iff.mp h
      rw [if_neg hc, attributesLength?_append r hm]
      rfl

/-- A text that is read as the attributes of a tag up to the bracket that ends the tag, whatever
brackets it holds in quotes. -/
structure Opens (a : Text) : Prop where
  parted : (a.head?.map isWord).getD false = false
  closes : attributesLength? none (a ++ ['>']) = some a.length

namespace Opens

variable {a : Text}

theorem head_parted (h : Opens a) (r : Text) :
    ((a ++ '>' :: r).head?.map isWord).getD false = false := by
  have parted := h.parted
  cases a with
  | nil => rfl
  | cons c a => exact parted

/-- A tag begins where it is written; what begins in its attributes begins behind that. -/
theorem boundsFrom_tag (h : Opens a) (pos : Nat) : boundsFrom pos (tagOpening a) =
    ⟨pos, pos + 8, false⟩ :: boundsFrom (pos + 8) (a ++ ['>']) :=
  boundsFrom_opening (h.head_parted []) pos

/-- A tag ends behind its attributes. -/
theorem tagEnd?_tag (h : Opens a) (pre r : Text) :
    tagEnd? (pre ++ (tagOpening a ++ r)) (pre.length + 8) = some (pre.length + 8 + a.length) := by
  have behind : (pre ++ (tagLead ++ (a ++ '>' :: r))).drop (pre.length + 8) = a ++ '>' :: r := by
    rw [← List.drop_drop, List.drop_left]
    rfl
  have length := attributesLength?_append r h.closes
  rw [List.append_assoc, List.singleton_append] at length
  unfold tagEnd?
  rw [tagOpening_append, behind, length]
  rfl

end Opens

/-! ### The end of a tag -/

/-- A tag that opens adds to what is open, unless it stands alone. -/
theorem closing?_opening {t : Text} {depth pos start stop : Nat} {bs : List Boundary}
    (hp : pos ≤ start) (he : tagEnd? t (start + 8) = some stop) :
    closing? t depth pos (⟨start, start + 8, false⟩ :: bs) =
      closing? t (depth + if (selfClosed? (slice t (start + 8) stop)).isSome then 0 else 1)
        (stop + 1) bs := by
  rw [closing?.eq_def]
  simp only [Nat.not_lt.mpr hp, Bool.false_eq_true, if_false, he]

/-- What starts in front of an offset closes no tag behind it. -/
theorem closing?_passed {t : Text} {depth pos : Nat} (rest : List Boundary) :
    ∀ {bs : List Boundary}, (∀ b ∈ bs, b.start < pos) →
      closing? t depth pos (bs ++ rest) = closing? t depth pos rest
  | [], _ => rfl
  | b :: bs, h => by
    obtain ⟨hb, hs⟩ := List.forall_mem_cons.mp h
    rw [List.cons_append, closing?.eq_def]
    simp only [hb, if_true]
    exact closing?_passed rest hs

/-- The end of the tag that is searched from. -/
theorem closing?_own {t : Text} {pos start stop : Nat} {bs : List Boundary} (hp : pos ≤ start) :
    closing? t 0 pos (⟨start, stop, true⟩ :: bs) = some ⟨start, stop, true⟩ := by
  rw [closing?.eq_def]
  simp only [Nat.not_lt.mpr hp, if_false, if_true]

theorem closing?_closing (t : Text) (depth stop : Nat) (bs : List Boundary) {pos start : Nat}
    (hp : pos ≤ start) :
    closing? t (depth + 1) pos (⟨start, stop, true⟩ :: bs) = closing? t depth stop bs := by
  rw [closing?.eq_def]
  simp only [Nat.not_lt.mpr hp, if_false, if_true]

/-! ### Stretches that a search comes through -/

section Passing

variable {X : Type} {search : Text → Nat → List Boundary → X} {found found' : Nat → X → X}
  {u v : Text} {bounds bounds' : Nat → List Boundary}

/-- A search from boundary to boundary comes through a stretch of text, wherever it stands: what it
finds among the boundaries of the stretch depends on the offset only, and behind them it goes on from
an offset that is not behind the stretch. -/
def Passes (search : Text → Nat → List Boundary → X) (found : Nat → X → X) (u : Text)
    (bounds : Nat → List Boundary) : Prop :=
  ∀ (pre post : Text) (pos : Nat) (bs : List Boundary), pos ≤ pre.length →
    ∃ pos', pos' ≤ pre.length + u.length ∧
      search (pre ++ (u ++ post)) pos (bounds pre.length ++ bs) =
        found pre.length (search (pre ++ (u ++ post)) pos' bs)

theorem Passes.text (search : Text → Nat → List Boundary → X) (u : Text) :
    Passes search (fun _ x => x) u fun _ => [] :=
  fun _ _ pos _ hp => ⟨pos, Nat.le_add_right_of_le hp, rfl⟩

theorem Passes.append (h : Passes search found u bounds) (h' : Passes search found' v bounds') :
    Passes search (fun n x => found n (found' (n + u.length) x)) (u ++ v)
      fun n => bounds n ++ bounds' (n + u.length) := by
  intro pre post pos bs hp
  obtain ⟨pos₁, hp₁, e₁⟩ := h pre (v ++ post) pos (bounds' (pre.length + u.length) ++ bs) hp
  obtain ⟨pos₂, hp₂, e₂⟩ := h' (pre ++ u) post pos₁ bs (by rw [List.length_append]; exact hp₁)
  rw [List.length_append] at hp₂ e₂
  rw [List.append_assoc] at e₂
  refine ⟨pos₂, by rw [List.length_append]; omega, ?_⟩
  rw [List.append_assoc, List.append_assoc, e₁, e₂]

end Passing

/-! ### The tags of a text -/

/-- What starts in front of an offset begins no tag behind it. -/
theorem tagsFrom_behind {t : Text} {pos : Nat} (rest : List Boundary) : ∀ {bs : List Boundary},
    (∀ b ∈ bs, b.start < pos) → tagsFrom t pos (bs ++ rest) = tagsFrom t pos rest
  | [], _ => rfl
  | b :: bs, h => by
    obtain ⟨hb, hs⟩ := List.forall_mem_cons.mp h
    rw [List.cons_append, tagsFrom, if_pos hb, tagsFrom_behind rest hs]

/-- A tag that is closed has all that stands in front of its closing tag as its body. -/
theorem tagsFrom_closed {t : Text} {pos start stop : Nat} {c : Boundary} {bs : List Boundary}
    (hp : pos ≤ start) (he : tagEnd? t (start + 8) = some stop)
    (hs : selfClosed? (slice t (start + 8) stop) = none)
    (hc : closing? t 0 (stop + 1) bs = some c) :
    tagsFrom t pos (⟨start, start + 8, false⟩ :: bs) =
      ⟨start, c.stop, slice t (start + 8) stop, some (slice t (stop + 1) c.start)⟩ ::
        tagsFrom t c.stop bs := by
  rw [tagsFrom]
  simp only [Nat.not_lt.mpr hp, Bool.false_eq_true, if_false, he, hs, hc]

theorem tagsFrom_alone {t attributes : Text} {pos start stop : Nat} (bs : List Boundary)
    (hp : pos ≤ start) (he : tagEnd? t (start + 8) = some stop)
    (hs : selfClosed? (slice t (start + 8) stop) = some attributes) :
    tagsFrom t pos (⟨start, start + 8, false⟩ :: bs) =
      ⟨start, stop + 1, attributes, none⟩ :: tagsFrom t (stop + 1) bs := by
  rw [tagsFrom]
  simp only [Nat.not_lt.mpr hp, Bool.false_eq_true, if_false, he, hs]

/-! ### Tags that a search comes through -/

/-- The boundaries of a tag around a body that has boundaries of its own. -/
def around (a u : Text) (bounds : Nat → List Boundary) (n : Nat) : List Boundary :=
  let inside := n + (tagOpening a).length
  let stop := inside + u.length
  boundsFrom n (tagOpening a) ++ (bounds inside ++ [⟨stop, stop + 10, true⟩])

namespace Opens

variable {a u : Text} {bounds : Nat → List Boundary}

/-- What begins in the attributes of a tag begins in front of the end of the tag. -/
theorem held (a : Text) (n : Nat) :
    ∀ b ∈ boundsFrom (n + 8) (a ++ ['>']), b.start < n + (tagOpening a).length := by
  intro b hb
  have inside := start_boundsFrom b hb
  rw [List.length_append, List.length_singleton] at inside
  rw [length_tagOpening]
  omega

/-- The search for the end of a tag goes on behind an opening tag. -/
theorem closing?_tag (h : Opens a) (depth : Nat) (pre post : Text) (bs : List Boundary) {pos : Nat}
    (hp : pos ≤ pre.length) :
    closing? (pre ++ (tagOpening a ++ post)) depth pos
        (boundsFrom pre.length (tagOpening a) ++ bs) =
      closing? (pre ++ (tagOpening a ++ post)) (depth + if (selfClosed? a).isSome then 0 else 1)
        (pre.length + (tagOpening a).length) bs := by
  have stop : pre.length + 8 + a.length + 1 = pre.length + (tagOpening a).length := by
    rw [length_tagOpening]
    omega
  rw [h.boundsFrom_tag, List.cons_append, closing?_opening hp (h.tagEnd?_tag pre post),
    slice_tagOpening, stop]
  exact closing?_passed bs (held a pre.length)

/-- The search for the end of a tag comes through a tag of which it comes through the body. -/
theorem passes_closing? (h : Opens a) (hs : selfClosed? a = none)
    (body : ∀ depth, Passes (closing? · depth) (fun _ x => x) u bounds) (depth : Nat) :
    Passes (closing? · depth) (fun _ x => x) (tagOpening a ++ (u ++ tagClosing))
      (around a u bounds) := by
  intro pre post pos bs hp
  let inside := pre.length + (tagOpening a).length
  let stop := inside + u.length
  let t := pre ++ (tagOpening a ++ (u ++ (tagClosing ++ post)))
  have opened : closing? t depth pos (boundsFrom pre.length (tagOpening a) ++
      (bounds inside ++ ⟨stop, stop + 10, true⟩ :: bs)) =
        closing? t (depth + 1) inside (bounds inside ++ ⟨stop, stop + 10, true⟩ :: bs) := by
    have passed := h.closing?_tag depth pre (u ++ (tagClosing ++ post))
      (bounds inside ++ ⟨stop, stop + 10, true⟩ :: bs) hp
    rw [hs] at passed
    exact passed
  obtain ⟨pos', hp', e⟩ := body (depth + 1) (pre ++ tagOpening a) (tagClosing ++ post) inside
    (⟨stop, stop + 10, true⟩ :: bs) (by rw [List.length_append])
  rw [List.append_assoc, List.length_append] at e
  rw [List.length_append] at hp'
  have closed := closing?_closing t depth (stop + 10) bs hp'
  have ten : tagClosing.length = 10 := rfl
  refine ⟨stop + 10, ?_, ?_⟩
  · simp only [List.length_append, stop, inside]
    omega
  · simp only [around, List.append_assoc, List.cons_append, List.nil_append]
    exact opened.trans (e.trans closed)

theorem passes_closing?_alone (h : Opens a) (hs : (selfClosed? a).isSome) (depth : Nat) :
    Passes (closing? · depth) (fun _ x => x) (tagOpening a)
      fun n => boundsFrom n (tagOpening a) := by
  intro pre post pos bs hp
  have passed := h.closing?_tag depth pre post bs hp
  rw [hs] at passed
  exact ⟨_, Nat.le_refl _, passed⟩

/-- The search for tags finds a tag and goes on behind it, if the search for the end of the tag comes
through the body. -/
theorem passes_tagsFrom (h : Opens a) (hs : selfClosed? a = none)
    (body : Passes (closing? · 0) (fun _ x => x) u bounds)
    (starts : ∀ n, ∀ x ∈ bounds n, x.start < n + u.length) :
    Passes tagsFrom (fun n tags => ⟨n, n + (tagOpening a).length + u.length + 10, a, some u⟩ :: tags)
      (tagOpening a ++ (u ++ tagClosing)) (around a u bounds) := by
  intro pre post pos bs hp
  let inside := pre.length + (tagOpening a).length
  let stop := inside + u.length
  let t := pre ++ (tagOpening a ++ (u ++ (tagClosing ++ post)))
  let front := boundsFrom (pre.length + 8) (a ++ ['>'])
  have length : pre.length + 8 + a.length + 1 = inside := by
    simp only [inside, length_tagOpening, Nat.add_assoc]
  have own : slice t (pre.length + 8) (pre.length + 8 + a.length) = a := slice_tagOpening ..
  have closed : closing? t 0 inside (front ++ (bounds inside ++ ⟨stop, stop + 10, true⟩ :: bs)) =
      some ⟨stop, stop + 10, true⟩ := by
    obtain ⟨pos', hp', e⟩ := body (pre ++ tagOpening a) (tagClosing ++ post) inside
      (⟨stop, stop + 10, true⟩ :: bs) (by rw [List.length_append])
    rw [List.append_assoc, List.length_append] at e
    rw [List.length_append] at hp'
    exact (closing?_passed _ (held a pre.length)).trans (e.trans (closing?_own hp'))
  have content : slice t inside stop = u := by
    have cut := slice_middle (pre ++ tagOpening a) u (tagClosing ++ post)
    rw [List.append_assoc, List.length_append] at cut
    exact cut
  have within : ∀ x ∈ front ++ (bounds inside ++ [⟨stop, stop + 10, true⟩]), x.start < stop + 10 := by
    intro x hx
    obtain hx | hx := List.mem_append.mp hx
    · have before := held a pre.length x hx
      omega
    · obtain hx | hx := List.mem_append.mp hx
      · exact Nat.lt_add_right 10 (starts inside x hx)
      · obtain rfl := List.mem_singleton.mp hx
        exact Nat.lt_add_of_pos_right (by decide)
  have passed := tagsFrom_behind (t := t) bs within
  simp only [List.append_assoc, List.singleton_append] at passed
  rw [← length] at closed
  have bodied : selfClosed? (slice t (pre.length + 8) (pre.length + 8 + a.length)) = none := by
    rw [own]
    exact hs
  have found := tagsFrom_closed hp (h.tagEnd?_tag pre _) bodied closed
  rw [length, own, content, passed] at found
  have ten : tagClosing.length = 10 := rfl
  refine ⟨stop + 10, ?_, ?_⟩
  · simp only [List.length_append, stop, inside]
    omega
  · simp only [around, h.boundsFrom_tag, List.append_assoc, List.cons_append, List.nil_append]
    exact found

theorem passes_tagsFrom_alone {attributes : Text} (h : Opens a)
    (hs : selfClosed? a = some attributes) :
    Passes tagsFrom (fun n tags => ⟨n, n + (tagOpening a).length, attributes, none⟩ :: tags)
      (tagOpening a) fun n => boundsFrom n (tagOpening a) := by
  intro pre post pos bs hp
  have own : slice (pre ++ (tagOpening a ++ post)) (pre.length + 8) (pre.length + 8 + a.length) = a :=
    slice_tagOpening ..
  have stop : pre.length + 8 + a.length + 1 = pre.length + (tagOpening a).length := by
    rw [length_tagOpening]
    omega
  have found := tagsFrom_alone (boundsFrom (pre.length + 8) (a ++ ['>']) ++ bs) hp
    (h.tagEnd?_tag pre post) (own.symm ▸ hs)
  rw [stop, tagsFrom_behind bs (held a pre.length)] at found
  refine ⟨_, Nat.le_refl _, ?_⟩
  simp only [h.boundsFrom_tag]
  exact found

end Opens

end Pagewright.Assembly
