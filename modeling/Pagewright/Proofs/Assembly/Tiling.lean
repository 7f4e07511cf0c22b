import Pagewright.Proofs.Assembly.NestedTag
import Pagewright.Proofs.Assembly.Stretch
import Pagewright.Proofs.Lowering.RawBlock

/-! # Texts laid in tiles

A tile is a stretch of text that is read in one way whatever follows it: as an opening tag, as a
closing tag, as a raw block, or as something in which neither a tag nor a region begins.  Where a
text is laid in tiles, its boundaries are those of the tiles outside of raw blocks
(`bounds_tiles`), and which tiles an outermost tag is made of is told by the roles of the tiles
alone (`extents`).  So texts whose tiles have the same roles have the same tags, from the first of
their tiles to the last one (`includeTags_tiles`).

Main definitions: `Tile`, `Role`, `Extent`, `extents`. -/

namespace Pagewright.Assembly

open Text Directive Lowering

/-! ### Tiles -/

/-- Nothing is recognised in a stretch, whatever follows it. -/
def Still {α : Type} (find : Recogniser α) (x : Text) : Prop :=
  ∀ c v, c :: v <:+ x → ∀ r, find (c :: v ++ r) = none

/-- A stretch that is read in one way, whatever follows it. -/
inductive Tile : Text → Prop
  /-- Neither a tag nor a region begins in the stretch. -/
  | plain {x : Text} (untagged : Still boundary? x) (unguarded : Still region? x) : Tile x
  /-- A raw block, whatever stands in it. -/
  | block (b : RawBlock) : Tile b.shown
  /-- An opening tag with its attributes. -/
  | opening {lead a : Text} (eight : lead.length = 8)
      (begins : ∀ r, boundary? (lead ++ (a ++ '>' :: r)) = some (false, 8))
      (ends : attributesLength? none (a ++ ['>']) = some a.length)
      (untagged : Still boundary? (lead ++ (a ++ ['>'])).tail)
      (unguarded : Still region? (lead ++ (a ++ ['>']))) : Tile (lead ++ (a ++ ['>']))
  /-- A closing tag. -/
  | closing {x : Text} (begins : ∀ r, boundary? (x ++ r) = some (true, x.length))
      (unguarded : Still region? x) : Tile x

/-- What a tile is among the tags of a text. -/
inductive Role where
  | silent
  | opening (attributes : Text)
  | closing
  deriving DecidableEq

/-- The role of a tile. -/
def roleOf (x : Text) : Role :=
  match boundary? x with
  | none => .silent
  | some (true, _) => .closing
  | some (false, n) => .opening (x.drop n).dropLast

variable {α : Type} {find : Recogniser α} {x : Text}

theorem Still.of_suffix {v : Text} (h : Still find x) (hv : v <:+ x) : Still find v :=
  fun c w hw => h c w (hw.trans hv)

theorem still_of_leads {l : Char} (leads : Leads l find) (h : l ∉ x) : Still find x :=
  fun c v hv r => leads c (v ++ r) fun e => h (e ▸ hv.subset List.mem_cons_self)

theorem roleOf_still (h : Still boundary? x) : roleOf x = .silent := by
  have none_ : boundary? x = none := by
    cases x with
    | nil => rfl
    | cons c v =>
      have whole := h c v List.suffix_rfl []
      rwa [List.append_nil] at whole
  rw [roleOf, none_]

theorem roleOf_block (b : RawBlock) : roleOf b.shown = .silent := rfl

theorem roleOf_opening {lead a : Text} (eight : lead.length = 8)
    (begins : ∀ r, boundary? (lead ++ (a ++ '>' :: r)) = some (false, 8)) :
    roleOf (lead ++ (a ++ ['>'])) = .opening a := by
  have behind : (lead ++ (a ++ ['>'])).drop 8 = a ++ ['>'] := by rw [← eight, List.drop_left]
  rw [roleOf, begins []]
  simp only [behind, List.dropLast_concat]

theorem roleOf_closing (begins : ∀ r, boundary? (x ++ r) = some (true, x.length)) :
    roleOf x = .closing := by
  have whole := begins []
  rw [List.append_nil] at whole
  rw [roleOf, whole]

/-! ### Boundaries -/

/-- The boundaries of a text that is laid in tiles and starts at an offset. -/
def tileBounds : Nat → List Text → List Boundary
  | _, [] => []
  | pos, x :: xs =>
    match roleOf x with
    | .silent => tileBounds (pos + x.length) xs
    | .opening _ => ⟨pos, pos + 8, false⟩ :: tileBounds (pos + x.length) xs
    | .closing => ⟨pos, pos + x.length, true⟩ :: tileBounds (pos + x.length) xs

/-- Where the regions of a text stand that starts at an offset. -/
def spansFrom (pos : Nat) (t : Text) : List (Nat × Nat) :=
  (piecesFrom region? pos 0 t).filterMap fun
    | .char _ => none
    | .hit _ start stop => some (start, stop)

/-- A boundary that stands in none of the spans. -/
def outside (spans : List (Nat × Nat)) : Piece Bool → Option Boundary
  | .char _ => none
  | .hit closing start stop =>
    if spans.any fun (a, b) => decide (a ≤ start) && decide (start < b) then none
    else some ⟨start, stop, closing⟩

theorem boundaries_eq (t : Text) :
    boundaries t = (piecesFrom boundary? 0 0 t).filterMap (outside (spansFrom 0 t)) := by
  have spans : protectedSpans t = spansFrom 0 t := by
    unfold protectedSpans hitSpans spansFrom
    refine congrArg (List.filterMap · (pieces region? t)) (funext fun p => ?_)
    cases p with
    | char c => rfl
    | hit a start stop => rfl
  unfold boundaries
  rw [spans]
  refine congrArg (List.filterMap · (pieces boundary? t)) (funext fun p => ?_)
  cases p with
  | char c => rfl
  | hit closing start stop => rfl

theorem le_of_mem_piecesFrom {a : α} {start stop pos skip : Nat} {t : Text}
    (h : .hit a start stop ∈ piecesFrom find pos skip t) : pos ≤ start := by
  induction t generalizing pos skip with
  | nil =>
    rw [piecesFrom] at h
    cases h
  | cons c t ih =>
    have later : ∀ {skip}, .hit a start stop ∈ piecesFrom find (pos + 1) skip t → pos ≤ start :=
      fun h => Nat.le_of_succ_le (ih h)
    cases skip with
    | succ k => exact later h
    | zero =>
      rw [piecesFrom] at h
      split at h
      · obtain e | h := List.mem_cons.mp h
        · cases e
          exact Nat.le_refl _
        · exact later h
      · obtain e | h := List.mem_cons.mp h
        · cases e
        · exact later h

theorem le_of_mem_spansFrom {pos : Nat} {t : Text} : ∀ s ∈ spansFrom pos t, pos ≤ s.1 := by
  intro s hs
  obtain ⟨p, hp, e⟩ := List.mem_filterMap.mp hs
  cases p with
  | char c => cases e
  | hit a start stop =>
    obtain rfl := Option.some.inj e
    exact le_of_mem_piecesFrom hp

theorem Still.piecesFrom (h : Still find x) (pos : Nat) (r : Text) :
    piecesFrom find pos 0 (x ++ r) = x.map .char ++ piecesFrom find (pos + x.length) 0 r :=
  piecesFrom_quiet find pos x r fun c v hv => h c v hv r

theorem spansFrom_still (h : Still region? x) (pos : Nat) (r : Text) :
    spansFrom pos (x ++ r) = spansFrom (pos + x.length) r := by
  rw [spansFrom, h.piecesFrom, List.filterMap_append, List.filterMap_map]
  simp [spansFrom]

theorem spansFrom_block (b : RawBlock) (pos : Nat) (r : Text) : spansFrom pos (b.shown ++ r) =
    (pos, pos + b.shown.length) :: spansFrom (pos + b.shown.length) r := by
  rw [spansFrom, piecesFrom_hit _ pos b.shown_ne_nil (region?_shown b r), List.filterMap_cons]
  rfl

theorem outside_chars (spans : List (Nat × Nat)) (t : Text) :
    (t.map Piece.char).filterMap (outside spans) = [] := by
  rw [List.filterMap_map]
  simp [outside]

theorem outside_hit {spans : List (Nat × Nat)} {closing : Bool} {start stop : Nat}
    (h : ∀ s ∈ spans, s.2 ≤ start ∨ start < s.1) :
    outside spans (.hit closing start stop) = some ⟨start, stop, closing⟩ := by
  refine if_neg fun hit => ?_
  obtain ⟨s, hs, inside⟩ := List.any_eq_true.mp hit
  rw [Bool.and_eq_true, decide_eq_true_eq, decide_eq_true_eq] at inside
  have apart := h s hs
  omega

theorem outside_inside {spans : List (Nat × Nat)} {closing : Bool} {start stop : Nat}
    {s : Nat × Nat} (hs : s ∈ spans) (after : s.1 ≤ start) (before : start < s.2) :
    outside spans (.hit closing start stop) = none := by
  refine if_pos (List.any_eq_true.mpr ⟨s, hs, ?_⟩)
  rw [Bool.and_eq_true, decide_eq_true_eq, decide_eq_true_eq]
  exact ⟨after, before⟩

/-- A raw block is gone over by itself. -/
theorem boundaries_block (b : RawBlock) (pos : Nat) (r : Text) :
    piecesFrom boundary? pos 0 (b.shown ++ r) =
      piecesFrom boundary? pos 0 b.shown ++ piecesFrom boundary? (pos + b.shown.length) 0 r := by
  obtain ⟨u, hu⟩ := List.getLast?_eq_some_iff.mp b.getLast?_shown
  refine piecesFrom_append _ pos 0 (Nat.zero_le _) (fun c v hv => ?_)
    fun c v a n _ found => boundary?_bounded _ _ _ found
  -- The block ends with a bracket, with which no boundary goes on.
  have edge : Edge '\x7d' := by decide
  rw [hu] at hv
  obtain hv | ⟨w, given, -, e⟩ := suffix_append_cases hv
  · obtain ⟨rfl, rfl⟩ : c = '\x7d' ∧ v = [] := by
      obtain e | e := List.suffix_cons_iff.mp hv
      · exact List.cons.inj e
      · exact absurd (List.suffix_nil.mp e) (List.cons_ne_nil _ _)
    rw [boundary?_leads _ _ (by decide)]
    exact boundary?_leads _ r (by decide)
  · rw [e, List.append_assoc, List.singleton_append, boundary?_edge edge given r,
      boundary?_edge edge given []]

/-- A tile that begins with a boundary holds no other one. -/
theorem bounds_hit {u v r : Text} {closing : Bool} {pos : Nat} {before : List (Nat × Nat)}
    (given : u ≠ []) (found : boundary? (u ++ (v ++ r)) = some (closing, u.length))
    (untagged : Still boundary? v) (unguarded : Still region? (u ++ v))
    (front : ∀ s ∈ before, s.2 ≤ pos) :
    (piecesFrom boundary? pos 0 (u ++ v ++ r)).filterMap
        (outside (before ++ spansFrom pos (u ++ v ++ r))) =
      ⟨pos, pos + u.length, closing⟩ :: (piecesFrom boundary? (pos + (u ++ v).length) 0 r).filterMap
        (outside (before ++ spansFrom (pos + (u ++ v).length) r)) := by
  have apart : ∀ s ∈ before ++ spansFrom (pos + (u ++ v).length) r, s.2 ≤ pos ∨ pos < s.1 := by
    have length := List.length_pos_iff.mpr given
    refine List.forall_mem_append.mpr ⟨fun s hs => Or.inl (front s hs), fun s hs => Or.inr ?_⟩
    have behind := le_of_mem_spansFrom s hs
    rw [List.length_append] at behind
    omega
  rw [spansFrom_still unguarded, List.append_assoc, piecesFrom_hit boundary? pos given found,
    untagged.piecesFrom, List.filterMap_cons, outside_hit apart, List.filterMap_append,
    outside_chars, List.nil_append, List.length_append, Nat.add_assoc]

/-- **The boundaries of a text that is laid in tiles are those of its tiles**, without what stands in
raw blocks. -/
theorem bounds_tiles {xs : List Text} (tiled : ∀ x ∈ xs, Tile x) {pos : Nat}
    {before : List (Nat × Nat)} (front : ∀ s ∈ before, s.2 ≤ pos) :
    (piecesFrom boundary? pos 0 xs.flatten).filterMap
      (outside (before ++ spansFrom pos xs.flatten)) = tileBounds pos xs := by
  induction xs generalizing pos before with
  | nil => rfl
  | cons x xs ih =>
    obtain ⟨tile, others⟩ := List.forall_mem_cons.mp tiled
    have later := fun before front => @ih others (pos + x.length) before front
    have further : ∀ s ∈ before, s.2 ≤ pos + x.length := fun s hs =>
      Nat.le_add_right_of_le (front s hs)
    rw [List.flatten_cons, tileBounds]
    cases tile with
    | plain untagged unguarded =>
      rw [untagged.piecesFrom, spansFrom_still unguarded, List.filterMap_append, outside_chars,
        roleOf_still untagged, List.nil_append]
      exact later _ further
    | block b =>
      have inner : (piecesFrom boundary? pos 0 b.shown).filterMap
          (outside (before ++ spansFrom pos (b.shown ++ xs.flatten))) = [] := by
        refine List.filterMap_eq_nil_iff.mpr fun p hp => ?_
        cases p with
        | char c => rfl
        | hit closing start stop =>
          have own : (pos, pos + b.shown.length) ∈ spansFrom pos (b.shown ++ xs.flatten) := by
            rw [spansFrom_block]
            exact List.mem_cons_self
          exact outside_inside (List.mem_append_right before own) (le_of_mem_piecesFrom hp)
            (start_lt_of_mem_piecesFrom hp)
      rw [boundaries_block, List.filterMap_append, inner, roleOf_block, List.nil_append,
        spansFrom_block]
      have all := later (before ++ [(pos, pos + b.shown.length)])
        (List.forall_mem_append.mpr ⟨further, List.forall_mem_singleton.mpr (Nat.le_refl _)⟩)
      rwa [List.append_assoc, List.singleton_append] at all
    | @opening lead a eight begins ends untagged unguarded =>
      have given : lead ≠ [] := List.ne_nil_of_length_pos (eight ▸ Nat.succ_pos 7)
      obtain ⟨l, lead, rfl⟩ := List.exists_cons_of_ne_nil given
      have inside : Still boundary? (a ++ ['>']) := untagged.of_suffix (List.suffix_append lead _)
      have found : boundary? (l :: lead ++ (a ++ ['>'] ++ xs.flatten)) =
          some (false, (l :: lead).length) := by
        rw [eight, List.append_assoc, List.singleton_append]
        exact begins _
      rw [bounds_hit given found inside unguarded front, roleOf_opening eight begins, eight]
      exact congrArg _ (later _ further)
    | closing begins unguarded =>
      have given : x ≠ [] := by
        rintro rfl
        cases begins []
      have found : boundary? (x ++ ([] ++ xs.flatten)) = some (true, x.length) := begins _
      have hit := bounds_hit (v := []) given found (fun c v hv => by simp at hv)
        (by rwa [List.append_nil]) front
      rw [List.append_nil] at hit
      rw [hit, roleOf_closing begins]
      exact congrArg _ (later _ further)

/-! ### Tags -/

/-- The number of the tile that closes a tag, where `depth` inner tags are open. -/
def closer? : Nat → List Role → Option Nat
  | _, [] => none
  | depth, .silent :: rs => (closer? depth rs).map (· + 1)
  | depth, .opening a :: rs =>
    (closer? (depth + if (selfClosed? a).isSome then 0 else 1) rs).map (· + 1)
  | 0, .closing :: _ => some 0
  | depth + 1, .closing :: rs => (closer? depth rs).map (· + 1)

/-- The tiles that an outermost tag is made of: the numbers of its opening tag and of its last tile,
its attributes, and whether it has a body. -/
structure Extent where
  first : Nat
  last : Nat
  attributes : Text
  closed : Bool
  deriving DecidableEq

/-- The outermost tags of tiles with some roles, numbered from `n` on, of which the first `skip` ones
belong to an earlier tag. -/
def extentsFrom (n : Nat) : Nat → List Role → List Extent
  | _, [] => []
  | skip + 1, _ :: rs => extentsFrom (n + 1) skip rs
  | 0, .silent :: rs => extentsFrom (n + 1) 0 rs
  | 0, .closing :: rs => extentsFrom (n + 1) 0 rs
  | 0, .opening a :: rs =>
    match selfClosed? a with
    | some attributes => ⟨n, n, attributes, false⟩ :: extentsFrom (n + 1) 0 rs
    | none =>
      match closer? 0 rs with
      | none => ⟨n, n, a, false⟩ :: extentsFrom (n + 1) 0 rs
      | some k => ⟨n, n + 1 + k, a, true⟩ :: extentsFrom (n + 1) (k + 1) rs

/-- The outermost tags of tiles with some roles. -/
def extents (rs : List Role) : List Extent := extentsFrom 0 0 rs

/-- The tag that some tiles of a text are. -/
def Extent.tag (xs : List Text) (e : Extent) : IncludeTag where
  start := (xs.take e.first).flatten.length
  stop := (xs.take (e.last + 1)).flatten.length
  attributes := e.attributes
  body := if e.closed then some ((xs.take e.last).drop (e.first + 1)).flatten else none

/-- The attributes of an opening tile are read where it stands. -/
theorem tagEnd?_opening {lead a : Text} (eight : lead.length = 8)
    (ends : attributesLength? none (a ++ ['>']) = some a.length) (pre r : Text) :
    tagEnd? (pre ++ (lead ++ (a ++ ['>']) ++ r)) (pre.length + 8) =
        some (pre.length + 8 + a.length) ∧
      slice (pre ++ (lead ++ (a ++ ['>']) ++ r)) (pre.length + 8) (pre.length + 8 + a.length) =
        a := by
  have whole : pre ++ (lead ++ (a ++ ['>']) ++ r) = (pre ++ lead) ++ (a ++ ('>' :: r)) := by simp
  have front : pre.length + 8 = (pre ++ lead).length := by rw [List.length_append, eight]
  have length := attributesLength?_append r ends
  rw [List.append_assoc, List.singleton_append] at length
  rw [whole, front]
  constructor
  · rw [tagEnd?, List.drop_left, length, Option.map_some]
  · exact slice_middle _ _ _

/-- **The tile that closes a tag is told by the roles.** -/
theorem closing?_tiles {xs : List Text} (tiled : ∀ x ∈ xs, Tile x) (pre : Text) {pos : Nat}
    (front : pos ≤ pre.length) (depth : Nat) :
    closing? (pre ++ xs.flatten) depth pos (tileBounds pre.length xs) =
      (closer? depth (xs.map roleOf)).map fun k =>
        ⟨pre.length + (xs.take k).flatten.length, pre.length + (xs.take (k + 1)).flatten.length,
          true⟩ := by
  induction xs generalizing pre pos depth with
  | nil => rfl
  | cons x xs ih =>
    obtain ⟨tile, others⟩ := List.forall_mem_cons.mp tiled
    -- What is found behind the tile has the next number.
    have later : ∀ {pos}, pos ≤ pre.length + x.length → ∀ depth,
        closing? (pre ++ (x :: xs).flatten) depth pos (tileBounds (pre.length + x.length) xs) =
          ((closer? depth (xs.map roleOf)).map (· + 1)).map fun k =>
            ⟨pre.length + ((x :: xs).take k).flatten.length,
              pre.length + ((x :: xs).take (k + 1)).flatten.length, true⟩ := by
      intro pos behind depth
      have rest := ih others (pre ++ x) (List.length_append ▸ behind) depth
      rw [List.length_append, List.append_assoc, ← List.flatten_cons] at rest
      rw [rest, Option.map_map]
      refine congrArg (Option.map · _) (funext fun k => ?_)
      simp only [Function.comp, List.take_succ_cons, List.flatten_cons, List.length_append,
        Nat.add_assoc]
    rw [List.map_cons, tileBounds]
    cases tile with
    | plain untagged unguarded =>
      rw [roleOf_still untagged, closer?]
      exact later (Nat.le_add_right_of_le front) depth
    | block b =>
      rw [roleOf_block, closer?]
      exact later (Nat.le_add_right_of_le front) depth
    | @opening lead a eight begins ends untagged unguarded =>
      obtain ⟨stop, cut⟩ := tagEnd?_opening eight ends pre xs.flatten
      have length : (lead ++ (a ++ ['>'])).length = 8 + a.length + 1 := by
        simp [eight, Nat.add_assoc]
      rw [roleOf_opening eight begins, closer?]
      simp only
      rw [List.flatten_cons, closing?_opening front stop, cut, ← List.flatten_cons]
      exact later (by omega) _
    | closing begins unguarded =>
      rw [roleOf_closing begins]
      simp only
      cases depth with
      | zero =>
        rw [closing?_own front, closer?]
        simp
      | succ depth =>
        rw [closing?_closing _ depth _ _ front, closer?]
        exact later (Nat.le_refl _) depth

/-- A tag that is not closed stands alone. -/
theorem tagsFrom_unclosed {t : Text} {pos start stop : Nat} {bs : List Boundary}
    (hp : pos ≤ start) (he : tagEnd? t (start + 8) = some stop)
    (hs : selfClosed? (slice t (start + 8) stop) = none) (hc : closing? t 0 (stop + 1) bs = none) :
    tagsFrom t pos (⟨start, start + 8, false⟩ :: bs) =
      ⟨start, stop + 1, slice t (start + 8) stop, none⟩ :: tagsFrom t (stop + 1) bs := by
  rw [tagsFrom]
  simp only [Nat.not_lt.mpr hp, Bool.false_eq_true, if_false, he, hs, hc]

theorem length_take_front (front xs : List Text) (k : Nat) :
    ((front ++ xs).take (front.length + k)).flatten.length =
      front.flatten.length + (xs.take k).flatten.length := by
  rw [List.take_length_add_append, List.flatten_append, List.length_append]

/-- A tag that is made of one tile. -/
theorem tag_single (front xs : List Text) (x a : Text) :
    Extent.tag (front ++ x :: xs) ⟨front.length, front.length, a, false⟩ =
      ⟨front.flatten.length, front.flatten.length + x.length, a, none⟩ := by
  have start := length_take_front front (x :: xs) 0
  have stop := length_take_front front (x :: xs) 1
  simp only [List.take_zero, List.take_succ_cons, List.flatten_cons, List.flatten_nil,
    List.append_nil, List.length_nil, Nat.add_zero] at start stop
  rw [Extent.tag, start, stop]
  rfl

/-- A tag with a body, which is made of the tiles between its opening and its closing tag. -/
theorem tag_closed (front xs : List Text) (x a : Text) (k : Nat) :
    Extent.tag (front ++ x :: xs) ⟨front.length, front.length + 1 + k, a, true⟩ =
      ⟨front.flatten.length,
        front.flatten.length + x.length + (xs.take (k + 1)).flatten.length, a,
        some (xs.take k).flatten⟩ := by
  have start := length_take_front front (x :: xs) 0
  have stop := length_take_front front (x :: xs) (k + 2)
  have inside : ((front ++ x :: xs).take (front.length + 1 + k)).drop (front.length + 1) =
      xs.take k := by
    rw [Nat.add_assoc, Nat.add_comm 1 k, List.take_length_add_append,
      List.drop_length_add_append]
    rfl
  simp only [List.take_zero, List.take_succ_cons, List.flatten_cons, List.flatten_nil,
    List.length_append, List.length_nil, Nat.add_zero, ← Nat.add_assoc] at start stop
  have number : front.length + 1 + k + 1 = front.length + k + 2 := by omega
  rw [Extent.tag]
  simp only [start, number, stop, inside, if_true]

/-- An opening tile begins a tag, behind the last tile of which the search goes on. -/
theorem tagsFrom_opened {front xs : List Text} (tiled : ∀ x ∈ xs, Tile x) {lead a : Text}
    (eight : lead.length = 8) (ends : attributesLength? none (a ++ ['>']) = some a.length)
    {x : Text} (shape : x = lead ++ (a ++ ['>'])) {pos : Nat} (at_ : pos ≤ front.flatten.length)
    (later : ∀ skip pos, (skip = 0 ∧ pos ≤ front.flatten.length + x.length ∨
        pos = front.flatten.length + x.length + (xs.take skip).flatten.length) →
      tagsFrom (front ++ x :: xs).flatten pos (tileBounds (front.flatten.length + x.length) xs) =
        (extentsFrom (front.length + 1) skip (xs.map roleOf)).map (Extent.tag (front ++ x :: xs))) :
    tagsFrom (front ++ x :: xs).flatten pos
        (⟨front.flatten.length, front.flatten.length + 8, false⟩ ::
          tileBounds (front.flatten.length + x.length) xs) =
      (extentsFrom front.length 0 (.opening a :: xs.map roleOf)).map
        (Extent.tag (front ++ x :: xs)) := by
  have whole : (front ++ x :: xs).flatten = front.flatten ++ (x ++ xs.flatten) := by
    rw [List.flatten_append, List.flatten_cons]
  obtain ⟨stop, cut⟩ := tagEnd?_opening eight ends front.flatten xs.flatten
  rw [← shape, ← whole] at stop cut
  have single := tag_single front xs x a
  have next := later 0 _ (Or.inl ⟨rfl, Nat.le_refl _⟩)
  have closing := closing?_tiles tiled (front.flatten ++ x) (Nat.le_refl _) 0
  rw [List.length_append, List.append_assoc, ← whole] at closing
  have behind : front.flatten.length + x.length = front.flatten.length + 8 + a.length + 1 := by
    simp [shape, eight, Nat.add_assoc]
  rw [behind] at next closing ⊢
  rw [extentsFrom]
  cases alone : selfClosed? a with
  | some attributes =>
    have own := tag_single front xs x attributes
    rw [tagsFrom_alone _ at_ stop (cut.symm ▸ alone), List.map_cons, own, next, behind]
  | none =>
    cases found : closer? 0 (xs.map roleOf) with
    | none =>
      rw [found] at closing
      rw [tagsFrom_unclosed at_ stop (cut.symm ▸ alone) closing, cut]
      simp only [List.map_cons, single, next, behind]
    | some k =>
      rw [found] at closing
      have body := slice_middle (front.flatten ++ x) (xs.take k).flatten (xs.drop k).flatten
      rw [← List.flatten_append, List.take_append_drop, List.append_assoc, ← whole,
        List.length_append, behind] at body
      have rest := later (k + 1) _ (Or.inr rfl)
      rw [behind] at rest
      rw [tagsFrom_closed at_ stop (cut.symm ▸ alone) closing, cut]
      simp only [List.map_cons, tag_closed front xs x a k, body, rest, behind]

/-- The tags behind the first tiles of a text, of which the next `skip` ones belong to a tag that ends
where the search goes on. -/
theorem tagsFrom_tiles {xs : List Text} (tiled : ∀ x ∈ xs, Tile x) (front : List Text)
    {skip pos : Nat} (place : skip = 0 ∧ pos ≤ front.flatten.length ∨
      pos = front.flatten.length + (xs.take skip).flatten.length) :
    tagsFrom (front ++ xs).flatten pos (tileBounds front.flatten.length xs) =
      (extentsFrom front.length skip (xs.map roleOf)).map (Extent.tag (front ++ xs)) := by
  induction xs generalizing front skip pos with
  | nil =>
    rw [List.map_nil, extentsFrom]
    rfl
  | cons x xs ih =>
    obtain ⟨tile, others⟩ := List.forall_mem_cons.mp tiled
    have later : ∀ skip pos, (skip = 0 ∧ pos ≤ front.flatten.length + x.length ∨
        pos = front.flatten.length + x.length + (xs.take skip).flatten.length) →
        tagsFrom (front ++ x :: xs).flatten pos (tileBounds (front.flatten.length + x.length) xs) =
          (extentsFrom (front.length + 1) skip (xs.map roleOf)).map
            (Extent.tag (front ++ x :: xs)) := by
      intro skip pos place
      have rest := @ih others (front ++ [x]) skip pos
      rw [List.flatten_append, List.length_append, List.flatten_singleton, List.length_append,
        List.length_singleton, List.append_assoc, List.singleton_append] at rest
      exact rest place
    rw [List.map_cons, tileBounds]
    cases skip with
    | succ k =>
      obtain ⟨zero, -⟩ | rfl := place
      · cases zero
      rw [List.take_succ_cons, List.flatten_cons, List.length_append, ← Nat.add_assoc, extentsFrom]
      refine Eq.trans ?_ (later k _ (Or.inr rfl))
      -- A boundary at the tile itself stands in front of the end of the earlier tag.
      have passed : ∀ b : Boundary, b.start = front.flatten.length → x ≠ [] → ∀ bs,
          tagsFrom (front ++ x :: xs).flatten
              (front.flatten.length + x.length + (xs.take k).flatten.length) (b :: bs) =
            tagsFrom (front ++ x :: xs).flatten
              (front.flatten.length + x.length + (xs.take k).flatten.length) bs := by
        intro b start given bs
        have positive := List.length_pos_iff.mpr given
        exact @tagsFrom_behind _ _ bs [b] (List.forall_mem_singleton.mpr (by omega))
      cases tile with
      | plain untagged unguarded => rw [roleOf_still untagged]
      | block b => rw [roleOf_block]
      | opening eight begins ends untagged unguarded =>
        rw [roleOf_opening eight begins]
        exact passed _ rfl (by simp) _
      | closing begins unguarded =>
        rw [roleOf_closing begins]
        refine passed _ rfl ?_ _
        rintro rfl
        cases begins []
    | zero =>
      have at_ : pos ≤ front.flatten.length := by
        obtain ⟨-, at_⟩ | rfl := place
        · exact at_
        · exact Nat.le_refl _
      have skipped := later 0 pos (Or.inl ⟨rfl, Nat.le_add_right_of_le at_⟩)
      cases tile with
      | plain untagged unguarded =>
        rw [roleOf_still untagged, extentsFrom]
        exact skipped
      | block b =>
        rw [roleOf_block, extentsFrom]
        exact skipped
      | closing begins unguarded =>
        rw [roleOf_closing begins, extentsFrom]
        simp only
        rw [tagsFrom, if_neg (Nat.not_lt.mpr at_), if_pos rfl]
        exact later 0 _ (Or.inl ⟨rfl, Nat.le_refl _⟩)
      | opening eight begins ends untagged unguarded =>
        rw [roleOf_opening eight begins]
        exact tagsFrom_opened others eight ends rfl at_ later

/-- **The outermost tags of a text that is laid in tiles are told by the roles of the tiles.** -/
theorem includeTags_tiles {xs : List Text} (tiled : ∀ x ∈ xs, Tile x) :
    includeTags xs.flatten = (extents (xs.map roleOf)).map (Extent.tag xs) := by
  have bounds := @bounds_tiles xs tiled 0 [] nofun
  rw [List.nil_append, ← boundaries_eq] at bounds
  rw [includeTags, bounds]
  exact tagsFrom_tiles tiled [] (Or.inl ⟨rfl, Nat.le_refl _⟩)

end Pagewright.Assembly
