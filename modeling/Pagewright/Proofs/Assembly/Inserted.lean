import Pagewright.Proofs.Assembly.Marker
import Pagewright.Proofs.Directive.Span
import Pagewright.Proofs.Lowering.Marking

/-! # Markers that are put in are read back

A directive of a stack or of a once block gives way to a marker.  In a text that held no lead of a
marker before, the readers of the printed page find exactly the markers that were put in, each over its
own stretch and with its own name, and every closing marker closes the one of its kind that was opened
last (`rewriteStackMarkers_read`).

A marker is put in between stretches that hold no lead, and it begins with a bracket, which stands
nowhere else in it.  So a reader needs to be known only where it looks at a marker as a whole
(`MarkReader`).  What is open is the state of the pass; the names of one kind in it are a stack of their
own (`Step.names`).

Main definitions: `landings`, `Mark`, `MarkReader`, `Run`, `openNames`. -/

/-! ## Where edits put their texts

Main definition: `landings`. -/

namespace Pagewright.Text

/-- Where the new texts of edits stand in the edited text, if what follows offset `last` of the text
follows offset `pos` there. -/
def landingsFrom : Nat → Nat → List Edit → List (Nat × Nat)
  | _, _, [] => []
  | last, pos, e :: es =>
    (pos + (e.start - last), pos + (e.start - last) + e.new.length) ::
      landingsFrom e.stop (pos + (e.start - last) + e.new.length) es

/-- Where the new texts of edits stand in the edited text. -/
def landings (es : List Edit) : List (Nat × Nat) := landingsFrom 0 0 es

theorem length_landingsFrom : ∀ (last pos : Nat) (es : List Edit),
    (landingsFrom last pos es).length = es.length
  | _, _, [] => rfl
  | _, _, e :: es => congrArg (· + 1) (length_landingsFrom e.stop _ es)

theorem length_slice {t : Text} {start stop : Nat} (h : stop ≤ t.length) :
    (slice t start stop).length = stop - start := by
  rw [slice, List.length_take, List.length_drop]
  omega

/-- New texts land where they are said to. -/
theorem exists_of_mem_landingsFrom {t u : Text} {last : Nat} {es : List Edit}
    (order : InOrder t.length last es) :
    ∀ p ∈ (es.map Edit.new).zip (landingsFrom last u.length es), ∃ a b,
      u ++ editFrom t last es = a ++ (p.1 ++ b) ∧ p.2 = (a.length, a.length + p.1.length) := by
  induction es generalizing u last with
  | nil => exact nofun
  | cons e es ih =>
    obtain ⟨front, around, behind⟩ := order
    have start : (u ++ slice t last e.start).length = u.length + (e.start - last) := by
      rw [List.length_append, length_slice (Nat.le_trans around behind.le)]
    have stop : (u ++ slice t last e.start ++ e.new).length =
        u.length + (e.start - last) + e.new.length := by
      rw [List.length_append, start]
    rw [landingsFrom, List.map_cons, List.zip_cons_cons, List.forall_mem_cons, editFrom]
    constructor
    · refine ⟨u ++ slice t last e.start, editFrom t e.stop es, ?_, by rw [start]⟩
      simp only [List.append_assoc]
    · have later := ih (u := u ++ slice t last e.start ++ e.new) behind
      rw [stop] at later
      simpa only [List.append_assoc] using later

end Pagewright.Text

/-! ## Reading

Main definitions: `Mark`, `MarkReader`. -/

namespace Pagewright.Assembly

open Text Lowering

/-- Kinds of markers hold nothing that markers are told apart by. -/
theorem plain_of_mem_stackNames {k : Text} (h : k ∈ stackNames) : '<' ∉ k ∧ ':' ∉ k := by
  have kinds : ∀ k ∈ stackNames, '<' ∉ k ∧ ':' ∉ k := by decide
  exact kinds k h

/-- A marker, by its kind and its name. -/
structure Mark where
  kind : Text
  name : Text
  deriving DecidableEq, Repr

namespace Mark

/-- A marker as it is written. -/
def shown (m : Mark) : Text := marker m.kind m.name

/-- A marker that can be put in. -/
structure Known (m : Mark) : Prop where
  kind : m.kind ∈ stackNames
  name : MarkerName m.name

theorem shown_ne_nil (m : Mark) : m.shown ≠ [] := marker_ne_nil _ _

end Mark

/-- A reader that finds the markers `mark a` where they stand, and none of the others.  It does not look
behind a bracket. -/
structure MarkReader {α : Type} (find : Recogniser α) (mark : α → Mark) : Prop where
  absent : ∀ {t : Text}, ¬ markLead <+: t → find t = none
  parted : ∀ (c : Char) (v r : Text), find (c :: v ++ '<' :: r) = find (c :: v)
  found : ∀ {a : α}, (mark a).Known → ∀ r,
    find ((mark a).shown ++ r) = some (a, (mark a).shown.length)
  other : ∀ {m : Mark}, m.Known → (∀ a, mark a ≠ m) → ∀ r, find (m.shown ++ r) = none

namespace MarkReader

variable {α : Type} {find : Recogniser α} {mark : α → Mark} (h : MarkReader find mark)

include h

theorem leads : Leads '<' find := by
  intro c r hc
  refine h.absent fun hp => hc ?_
  exact (List.cons_prefix_cons.mp hp).1.symm

theorem inj {a b : α} (ha : (mark a).Known) (e : mark a = mark b) : a = b := by
  have here := h.found ha []
  rw [e, h.found (e ▸ ha) []] at here
  exact (Prod.mk.inj (Option.some.inj here)).1.symm

/-- Between the markers that are put in, nothing is found. -/
theorem nowhere {t v : Text} (ht : ¬ markLead <:+: t) (hv : v <:+: t) : Nowhere find v := by
  intro w hw
  exact h.absent fun hp => ht (hp.isInfix.trans (hw.isInfix.trans hv))

/-- **The markers that are put in are what is found**, where they were put. -/
theorem hit_mem_piecesFrom {t : Text} (ht : ¬ markLead <:+: t) {es : List Edit} {ms : List Mark}
    (written : es.map Edit.new = ms.map Mark.shown) (known : ∀ m ∈ ms, m.Known) {last : Nat}
    (order : InOrder t.length last es) (pos : Nat) (a : α) (start stop : Nat) :
    .hit a start stop ∈ piecesFrom find pos 0 (editFrom t last es) ↔
      (mark a, start, stop) ∈ ms.zip (landingsFrom last pos es) := by
  have chars : ∀ u : Text, .hit a start stop ∉ u.map (Piece.char (α := α)) := fun u hu => by
    obtain ⟨c, -, e⟩ := List.mem_map.mp hu
    cases e
  induction es generalizing ms last pos with
  | nil =>
    obtain rfl := List.map_eq_nil_iff.mp written.symm
    have rest : Nowhere find (t.drop last) := h.nowhere ht (List.drop_suffix last t).isInfix
    have scan := piecesFrom_quiet find pos (t.drop last) []
      (quiet_atBracket h.parted rest atBracket_nil)
    rw [List.append_nil, piecesFrom, List.append_nil] at scan
    rw [editFrom, scan]
    exact iff_of_false (chars _) List.not_mem_nil
  | cons e es ih =>
    obtain ⟨front, around, behind⟩ := order
    obtain _ | ⟨m, ms⟩ := ms
    · cases written
    obtain ⟨own, others⟩ := List.cons.inj written
    obtain ⟨hm, known⟩ := List.forall_mem_cons.mp known
    have gap : Nowhere find (slice t last e.start) :=
      h.nowhere ht ((List.take_prefix _ _).isInfix.trans (List.drop_suffix last t).isInfix)
    have length : (slice t last e.start).length = e.start - last :=
      length_slice (Nat.le_trans around behind.le)
    have passed := piecesFrom_quiet find pos (slice t last e.start)
      (m.shown ++ editFrom t e.stop es) (quiet_atBracket h.parted gap (atBracket_marker _ _ _))
    rw [editFrom, own, List.append_assoc, passed, landingsFrom, own, length, List.zip_cons_cons,
      List.mem_append, List.mem_cons, or_iff_right (chars _)]
    have later := ih others known behind (pos + (e.start - last) + m.shown.length)
    by_cases mine : ∃ b, mark b = m
    · obtain ⟨b, rfl⟩ := mine
      rw [piecesFrom_hit find _ (Mark.shown_ne_nil _) (h.found hm _), List.mem_cons]
      refine or_congr ⟨fun same => ?_, fun same => ?_⟩ later
      · cases same
        rfl
      · obtain ⟨one, span⟩ := Prod.mk.inj same
        obtain ⟨rfl, rfl⟩ := Prod.mk.inj span
        rw [h.inj hm one.symm]
    · have missing : ∀ b, mark b ≠ m := fun b e => mine ⟨b, e⟩
      have inside := piecesFrom_quiet find (pos + (e.start - last)) m.shown (editFrom t e.stop es)
        (quiet_marker h.leads m.kind (plain_of_mem_stackNames hm.kind).1 hm.name (h.other hm missing _))
      rw [inside, List.mem_append, or_iff_right (chars _)]
      exact later.trans (or_iff_right fun same => missing a (Prod.mk.inj same).1).symm

end MarkReader

/-! ### Markers of one kind -/

/-- What a marker of a kind starts with. -/
def kindLead (kind : Text) : Text := markLead ++ (kind ++ [':'])

/-- A marker of a kind, with its name. -/
def markOf? (kind : Text) : Recogniser Text := fun t => do
  let (name, rest) ← markerRest? (← dropLead? (kindLead kind) t)
  return (name, t.length - rest.length)

theorem marker_eq (k n r : Text) : marker k n ++ r = kindLead k ++ (n ++ ("-->" ++ r)) := by
  rw [marker_append, kindLead, List.append_assoc, List.append_assoc]
  rfl

theorem dropLead?_kindLead {kind k n r : Text} (hkind : ':' ∉ kind) (hk : ':' ∉ k) :
    dropLead? (kindLead kind) (marker k n ++ r) =
      if kind = k then some (n ++ ("-->" ++ r)) else none := by
  rw [marker_eq]
  split
  · next same => rw [same, dropLead?_append]
  · next differ =>
    rw [dropLead?_eq_none]
    rintro ⟨w, e⟩
    simp only [kindLead, List.append_assoc, List.singleton_append] at e
    have front := cutAt?_char w hkind
    rw [List.append_cancel_left e, cutAt?_char _ hk] at front
    exact differ (Prod.mk.inj (Option.some.inj front)).1.symm

theorem markReader_markOf? (kind : Text) (hk : kind ∈ stackNames) :
    MarkReader (markOf? kind) fun n => ⟨kind, n⟩ where
  absent := fun {t} h => by
    have lead : dropLead? (kindLead kind) t = none := dropLead?_marker (kind ++ [':']) h rfl
    rw [markOf?, lead]
    rfl
  parted := fun c v r => by
    have free : '<' ∉ ("!--hk:" ++ (kind ++ [':']) : Text) := by
      simp only [List.mem_append, not_or]
      exact ⟨by decide, (plain_of_mem_stackNames hk).1, by decide⟩
    have lead : dropLead? (kindLead kind) (c :: v ++ '<' :: r) =
        (dropLead? (kindLead kind) (c :: v)).map (· ++ '<' :: r) := dropLead?_marker_parted _ free c v r
    unfold markOf?
    rw [lead]
    cases dropLead? (kindLead kind) (c :: v) with
    | none => rfl
    | some rest => exact named_parted id (c :: v) rest r
  found := fun {n} h r => by
    have plain := (plain_of_mem_stackNames hk).2
    have lead := dropLead?_kindLead (n := n) (r := r) plain plain
    rw [if_pos rfl] at lead
    rw [markOf?, Mark.shown, lead]
    simp only [Option.bind_eq_bind, Option.bind_some, markerRest?_name h.name, List.length_append,
      Nat.add_sub_cancel]
    rfl
  other := fun {m} h hne r => by
    have lead := dropLead?_kindLead (n := m.name) (r := r) (plain_of_mem_stackNames hk).2
      (plain_of_mem_stackNames h.kind).2
    rw [if_neg fun e => hne m.name (by rw [e])] at lead
    rw [markOf?, Mark.shown, lead]
    rfl

/-! ### The readers of the printed page -/

/-- The kind of the marker of a fragment. -/
def FragmentMarker.kind (m : FragmentMarker) : Text :=
  (if m.closing then "end" else "") ++ (if m.prepended then "prepend" else "push")

theorem markReader_fragmentMarker? : MarkReader fragmentMarker? fun m => ⟨m.kind, m.name⟩ where
  absent := fragmentMarker?_eq_none
  parted := fragmentMarker?_parted
  found := fun h r => fragmentMarker?_shown h.name r
  other := fun {m} h hne r => by
    have fragments : ∀ k ∈ stackNames,
        (∃ closing prepended : Bool, FragmentMarker.kind ⟨closing, prepended, []⟩ = k) ∨
          k = "stack".toList ∨ k = "once".toList ∨ k = "endonce".toList := by decide
    obtain ⟨closing, prepended, same⟩ | kind := fragments m.kind h.kind
    · exact absurd (congrArg (Mark.mk · m.name) same) (hne ⟨closing, prepended, m.name⟩)
    · rw [Mark.shown]
      obtain kind | kind | kind := kind <;> rw [kind, marker_append] <;> rfl

theorem markReader_stackPlace? : MarkReader stackPlace? fun n => ⟨"stack", n⟩ :=
  markReader_markOf? "stack" (by decide)

theorem marker_eq_cons (k n : Text) :
    marker k n = '<' :: ("!--hk:" ++ (k ++ ':' :: (n ++ "-->"))) := by
  have written := marker_append k n []
  rwa [List.append_nil] at written

/-- The marker that closes a once block of a given key. -/
theorem markReader_closer {key : Text} (hk : MarkerName key) :
    MarkReader (occurrence? (marker "endonce" key)) fun _ => ⟨"endonce", key⟩ where
  absent := fun {t} h => by
    have lead : dropLead? (marker "endonce" key) t = none :=
      dropLead?_marker ("endonce:" ++ (key ++ "-->")) h (marker_eq_cons _ _)
    rw [occurrence?, lead]
    rfl
  parted := fun c v r => by
    have free : '<' ∉ ("!--hk:" ++ ("endonce" ++ ':' :: (key ++ "-->")) : Text) := by
      simp only [List.mem_append, List.mem_cons, not_or]
      exact ⟨by decide, by decide, by decide, bracket_not_mem_name hk, by decide⟩
    have lead := dropLead?_marker_parted _ free c v r
    rw [← marker_eq_cons] at lead
    rw [occurrence?, occurrence?, lead, Option.map_map]
    rfl
  found := fun h r => by
    rw [occurrence?, Mark.shown, dropLead?_append]
    rfl
  other := fun {m} h hne r => by
    -- Where the marker closes the key, it is read as a closing marker with that key.
    have endonce := markReader_markOf? "endonce" (by decide)
    rw [occurrence?, Option.map_eq_none_iff, dropLead?_eq_none]
    rintro ⟨w, e⟩
    have listed : "endonce".toList ∈ stackNames := by decide
    have closing : (⟨"endonce", key⟩ : Mark).Known := ⟨listed, hk⟩
    have read : markOf? "endonce" (m.shown ++ r) = some (key, _) := e ▸ endonce.found closing w
    by_cases mine : ∃ n, (⟨"endonce", n⟩ : Mark) = m
    · obtain ⟨n, rfl⟩ := mine
      rw [endonce.found h r] at read
      obtain rfl := (Prod.mk.inj (Option.some.inj read)).1
      exact hne () rfl
    · rw [endonce.other h (fun n e => mine ⟨n, e⟩) r] at read
      cases read

/-- A once block is a marker that opens it, its body, and the next marker that closes its key. -/
theorem once?_eq (t : Text) : once? t = (markOf? "once" t).bind fun (key, n) =>
    (cutAt? (marker "endonce" key) (t.drop n)).map fun (body, _) =>
      ((key, body), n + body.length + (marker "endonce" key).length) := by
  have opening : dropLead? "<!--hk:once:" t = dropLead? (kindLead "once") t := rfl
  unfold once? markOf?
  rw [opening]
  cases lead : dropLead? (kindLead "once") t with
  | none => rfl
  | some behind =>
    cases read : markerRest? behind with
    | none => simp [read]
    | some found =>
      obtain ⟨key, rest⟩ := found
      have whole : t = marker "once" key ++ rest := by
        rw [marker_eq, eq_append_of_dropLead? lead, (eq_of_markerRest? read).1]
      have length : t.length - rest.length = (marker "once" key).length := by
        rw [whole, List.length_append, Nat.add_sub_cancel]
      have dropped : t.drop (marker "once" key).length = rest := by rw [whole, List.drop_left]
      simp only [Option.bind_eq_bind, Option.pure_def, Option.bind_some, read, length, dropped]
      cases cut : cutAt? (marker "endonce" key) rest with
      | none => rfl
      | some parts =>
        obtain ⟨body, r⟩ := parts
        have size := congrArg List.length (eq_of_cutAt? cut)
        rw [List.length_append, List.length_append] at size
        have covered : t.length - r.length =
            (marker "once" key).length + body.length + (marker "endonce" key).length := by
          rw [whole, List.length_append]
          omega
        simp only [Option.bind_some, Option.map_some, covered]

end Pagewright.Assembly

/-! ## Writing

Main definitions: `Step`, `Run`, `openNames`. -/

namespace Pagewright.Assembly

open Text Lowering Directive

/-- The kinds of markers that are opened and closed. -/
def blockKinds : List Text := ["push", "prepend", "once"]

/-- What putting in a marker does to the markers that are open. -/
inductive Step : OpenMarkers → Mark → OpenMarkers → Prop
  | opens {s : OpenMarkers} {m : Mark} (kind : m.kind ∈ blockKinds) : Step s m ((m.kind, m.name) :: s)
  | place {s : OpenMarkers} {m : Mark} (kind : m.kind = "stack") : Step s m s
  | closes {s s' : OpenMarkers} {m : Mark} {k : Text} (block : k ∈ blockKinds)
      (kind : m.kind = "end" ++ k) (innermost : closeMarker? k s = some (m.name, s')) : Step s m s'

/-- What putting in markers one after the other does. -/
inductive Run : OpenMarkers → List Mark → OpenMarkers → Prop
  | nil (s : OpenMarkers) : Run s [] s
  | cons {s s' s'' : OpenMarkers} {m : Mark} {ms : List Mark} (first : Step s m s')
      (rest : Run s' ms s'') : Run s (m :: ms) s''

/-! ### The pass -/

theorem markerName_of_markerName? {e n : Text} (h : markerName? e = some n) : MarkerName n := by
  unfold markerName? at h
  split at h
  · cases h
  · cases h
  · next name given _ =>
    obtain rfl := Option.some.inj h
    refine ⟨fun e => given (List.map_eq_nil_iff.mp e), fun c hc => ?_⟩
    obtain ⟨d, -, rfl⟩ := List.mem_map.mp hc
    split
    · assumption
    · decide

theorem markerName_contentKey (body : Text) : MarkerName (contentKey body) where
  given := List.cons_ne_nil _ _
  chars := fun c hc => by
    obtain front | digit := List.mem_append.mp hc
    · have own : "fp-".toList.all isMarkerChar = true := by decide
      exact List.all_eq_true.mp own c front
    · have digits : ∀ d < 16, isMarkerChar (Nat.digitChar d) = true := by decide
      by_contra other
      refine not_mem_fingerprint (fun d hd e => other ?_) body (List.mem_of_mem_take digit)
      rw [e]
      exact digits d hd

theorem markerName_of_onceKey? {t key : Text} {d : Directive} (h : onceKey? t d = some key) :
    MarkerName key := by
  unfold onceKey? at h
  split at h
  · exact markerName_of_markerName? h
  · obtain ⟨closer, -, rfl⟩ := Option.map_eq_some_iff.mp h
    exact markerName_contentKey _

/-- The names of the markers that are open can be written. -/
def Writable (s : OpenMarkers) : Prop := ∀ m ∈ s, MarkerName m.2

theorem writable_closeMarker? {k n : Text} : ∀ {s s' : OpenMarkers}, Writable s →
    closeMarker? k s = some (n, s') → MarkerName n ∧ Writable s'
  | (j, own) :: s, s', hs, h => by
    obtain ⟨first, others⟩ := List.forall_mem_cons.mp hs
    rw [closeMarker?] at h
    split at h
    · cases h
      exact ⟨first, others⟩
    · obtain ⟨⟨found, rest⟩, hf, e⟩ := Option.map_eq_some_iff.mp h
      cases e
      obtain ⟨named, rest⟩ := writable_closeMarker? others hf
      exact ⟨named, List.forall_mem_cons.mpr ⟨first, rest⟩⟩

/-- **One directive** is left as it is, or gives way to a marker. -/
theorem stackMarker?_step (t : Text) {s : OpenMarkers} {d : Directive} (hd : d.name ∈ stackNames)
    (hs : Writable s) : stackMarker? t s d = (none, s) ∨
      ∃ m s', stackMarker? t s d = (some m.shown, s') ∧ m.Known ∧ Step s m s' ∧ Writable s' := by
  have opening : ∀ k ∈ stackNames, (k = "push" ∨ k = "prepend" ∨ k = "stack") → k ≠ "stack" →
      k ∈ blockKinds := by decide
  have once : "once".toList ∈ stackNames ∧ "once".toList ∈ blockKinds := by decide
  have closing : ∀ k ∈ stackNames, ¬ (k = "push" ∨ k = "prepend" ∨ k = "stack") → k ≠ "once" →
      k.drop 3 ∈ blockKinds ∧ "end" ++ k.drop 3 ∈ stackNames := by decide
  unfold stackMarker?
  split
  · next fragment =>
    split
    · exact Or.inl rfl
    · next n found =>
      obtain ⟨e, -, he⟩ := Option.bind_eq_some_iff.mp found
      have named := markerName_of_markerName? he
      refine Or.inr ⟨⟨d.name, n⟩, _, rfl, ⟨hd, named⟩, ?_⟩
      split
      · next place => exact ⟨.place place, hs⟩
      · next block =>
        exact ⟨.opens (opening d.name hd fragment block), List.forall_mem_cons.mpr ⟨named, hs⟩⟩
  · next other =>
    split
    · split
      · exact Or.inl rfl
      · next key found =>
        have named := markerName_of_onceKey? found
        exact Or.inr ⟨⟨"once", key⟩, _, rfl, ⟨once.1, named⟩, .opens once.2,
          List.forall_mem_cons.mpr ⟨named, hs⟩⟩
    · next unlike =>
      obtain ⟨block, listed⟩ := closing d.name hd other unlike
      simp only
      split
      · exact Or.inl rfl
      · next n s' found =>
        obtain ⟨named, rest⟩ := writable_closeMarker? hs found
        exact Or.inr ⟨⟨"end" ++ d.name.drop 3, n⟩, s', rfl, ⟨listed, named⟩,
          .closes block rfl found, rest⟩

/-- **The pass puts in markers one after the other.** -/
theorem editsOf_run (t : Text) {s : OpenMarkers} (hs : Writable s) (ds : List Directive) :
    ∃ ms s', (editsOf (stackMarker? t) s (named stackNames ds)).1.map Edit.new = ms.map Mark.shown ∧
      (∀ m ∈ ms, m.Known) ∧ Run s ms s' := by
  induction ds generalizing s with
  | nil => exact ⟨[], s, rfl, nofun, .nil s⟩
  | cons d ds ih =>
    rw [named, List.filter_cons]
    split
    · next listed =>
      rw [editsOf]
      split
      · exact ih hs
      · obtain kept | ⟨m, s', answer, known, step, rest⟩ :=
          stackMarker?_step t (List.contains_iff_mem.mp listed) hs
        · simp only [kept]
          exact ih hs
        · obtain ⟨ms, s'', written, all, run⟩ := ih rest
          refine ⟨m :: ms, s'', ?_, List.forall_mem_cons.mpr ⟨known, all⟩, .cons step run⟩
          simp only [answer, List.map_cons]
          exact congrArg (m.shown :: ·) written
    · exact ih hs

/-! ### Open markers -/

/-- The names of the open markers of a kind, behind one more marker. -/
def noted (kind : Text) (names : List Text) (m : Mark) : List Text :=
  if m.kind = kind then m.name :: names
  else if m.kind = "end" ++ kind then names.tail
  else names

/-- The names of the markers of a kind that were opened and have not been closed, the last one first. -/
def openNames (kind : Text) (ms : List Mark) : List Text := ms.foldl (noted kind) []

/-- The names of one kind among the open markers. -/
def namesOf (kind : Text) (s : OpenMarkers) : List Text :=
  (s.filter fun m => m.1 = kind).map Prod.snd

theorem namesOf_closeMarker? {k n : Text} : ∀ {s s' : OpenMarkers}, closeMarker? k s = some (n, s') →
    namesOf k s = n :: namesOf k s' ∧ ∀ j, j ≠ k → namesOf j s = namesOf j s'
  | (j, own) :: s, s', h => by
    rw [closeMarker?] at h
    split at h
    · next same =>
      cases h
      subst same
      exact ⟨by simp [namesOf], fun i hi => by simp [namesOf, Ne.symm hi]⟩
    · next differ =>
      obtain ⟨⟨found, rest⟩, hf, e⟩ := Option.map_eq_some_iff.mp h
      cases e
      obtain ⟨same, others⟩ := namesOf_closeMarker? hf
      unfold namesOf at same others ⊢
      refine ⟨by simpa [differ] using same, fun i hi => ?_⟩
      have kept := others i hi
      by_cases here : j = i
      · simpa [here] using kept
      · simpa [here] using kept

section Kinds

variable {k j : Text}

theorem end_ne (hk : k ∈ blockKinds) (hj : j ∈ blockKinds) : "end" ++ k ≠ j := by
  have kinds : ∀ k ∈ blockKinds, ∀ j ∈ blockKinds, "end" ++ k ≠ j := by decide
  exact kinds k hk j hj

theorem stack_ne (hk : k ∈ blockKinds) : "stack" ≠ k ∧ "stack" ≠ "end" ++ k := by
  have kinds : ∀ k ∈ blockKinds, "stack" ≠ k ∧ "stack" ≠ "end" ++ k := by decide
  exact kinds k hk

end Kinds

/-- **What a marker does to the names of a kind**: it puts one more on them, takes the last one away, or
has nothing to do with them. -/
theorem Step.names {s s' : OpenMarkers} {m : Mark} (h : Step s m s') {k : Text} (hk : k ∈ blockKinds) :
    (m.kind = k ∧ namesOf k s' = m.name :: namesOf k s) ∨
    (m.kind = "end" ++ k ∧ namesOf k s = m.name :: namesOf k s') ∨
    (m.kind ≠ k ∧ m.kind ≠ "end" ++ k ∧ namesOf k s' = namesOf k s) := by
  cases h with
  | opens kind =>
    by_cases own : m.kind = k
    · exact Or.inl ⟨own, by simp [namesOf, own]⟩
    · exact Or.inr (Or.inr ⟨own, fun e => end_ne hk kind e.symm, by simp [namesOf, own]⟩)
  | place kind =>
    rw [kind]
    exact Or.inr (Or.inr ⟨(stack_ne hk).1, (stack_ne hk).2, rfl⟩)
  | @closes _ _ j block kind innermost =>
    obtain ⟨own, others⟩ := namesOf_closeMarker? innermost
    rw [kind]
    by_cases same : k = j
    · exact Or.inr (Or.inl ⟨by rw [same], same ▸ own⟩)
    · refine Or.inr (Or.inr ⟨end_ne block hk, fun e => same ?_, (others k same).symm⟩)
      exact (List.append_cancel_left e).symm

theorem Step.noted_eq {s s' : OpenMarkers} {m : Mark} (h : Step s m s') {k : Text}
    (hk : k ∈ blockKinds) : noted k (namesOf k s) m = namesOf k s' := by
  unfold noted
  obtain ⟨kind, more⟩ | ⟨kind, less⟩ | ⟨other, other', same⟩ := h.names hk
  · rw [if_pos kind, more]
  · rw [if_neg (kind ▸ end_ne hk hk), if_pos kind, less, List.tail_cons]
  · rw [if_neg other, if_neg other', same]

theorem Run.noted_eq {s s' : OpenMarkers} {ms : List Mark} (h : Run s ms s') {k : Text}
    (hk : k ∈ blockKinds) : ms.foldl (noted k) (namesOf k s) = namesOf k s' := by
  induction h with
  | nil s => rfl
  | cons first rest ih => rw [List.foldl_cons, first.noted_eq hk, ih]

theorem Run.split {s s' : OpenMarkers} : ∀ {a b : List Mark}, Run s (a ++ b) s' →
    ∃ s₁, Run s a s₁ ∧ Run s₁ b s'
  | [], b, h => ⟨s, .nil s, h⟩
  | m :: a, b, h => by
    cases h with
    | cons first rest =>
      obtain ⟨s₁, front, behind⟩ := rest.split
      exact ⟨s₁, .cons first front, behind⟩

/-- How many markers of a kind there are. -/
def count (kind : Text) (ms : List Mark) : Nat := ms.countP fun m => m.kind = kind

/-- What is open in the end was opened and not closed. -/
theorem Run.count_eq {s s' : OpenMarkers} {ms : List Mark} (h : Run s ms s') {k : Text}
    (hk : k ∈ blockKinds) :
    (namesOf k s').length + count ("end" ++ k) ms = (namesOf k s).length + count k ms := by
  induction h with
  | nil s => rfl
  | cons first rest ih =>
    unfold count at ih ⊢
    rw [List.countP_cons, List.countP_cons]
    obtain ⟨kind, more⟩ | ⟨kind, less⟩ | ⟨other, other', same⟩ := first.names hk
    · rw [more, List.length_cons] at ih
      have apart := (end_ne hk hk).symm
      simp only [kind, apart, decide_true, decide_false, if_true, Bool.false_eq_true, if_false]
      omega
    · rw [less, List.length_cons]
      have apart := end_ne hk hk
      simp only [kind, apart, decide_true, decide_false, if_true, Bool.false_eq_true, if_false]
      omega
    · rw [same] at ih
      simp only [other, other', decide_false, Bool.false_eq_true, if_false]
      omega

/-- Every closing marker closes the one of its kind that was opened last and is still open. -/
structure Nested (ms : List Mark) : Prop where
  closer : ∀ k ∈ blockKinds, ∀ a n b, ms = a ++ ⟨"end" ++ k, n⟩ :: b → (openNames k a).head? = some n
  balance : ∀ k ∈ blockKinds, ∀ a, a <+: ms → count ("end" ++ k) a ≤ count k a

theorem Run.nested {ms : List Mark} {s : OpenMarkers} (h : Run [] ms s) : Nested ms where
  closer := by
    rintro k hk a n b rfl
    obtain ⟨s₁, front, behind⟩ := h.split
    have names : openNames k a = namesOf k s₁ := front.noted_eq hk
    rw [names]
    cases behind with
    | cons first rest =>
      obtain ⟨kind, -⟩ | ⟨-, less⟩ | ⟨-, other, -⟩ := first.names hk
      · exact absurd kind (end_ne hk hk)
      · rw [less, List.head?_cons]
      · exact absurd rfl other
  balance := by
    rintro k hk a ⟨b, rfl⟩
    obtain ⟨s₁, front, -⟩ := h.split
    have total := front.count_eq hk
    have start : (namesOf k []).length = 0 := rfl
    omega

end Pagewright.Assembly

/-! ## The writer and the readers -/

namespace Pagewright.Assembly

open Text Lowering Directive

/-- Markers at places of a text are what the readers of the printed page find in it: the markers of
fragments, the places of stacks, and the markers that open and close once blocks. -/
structure ReadBack (t : Text) (placed : List (Mark × Nat × Nat)) : Prop where
  written : ∀ p ∈ placed, ∃ a b, t = a ++ (p.1.shown ++ b) ∧
    p.2 = (a.length, a.length + p.1.shown.length)
  fragments : ∀ m start stop, .hit m start stop ∈ pieces fragmentMarker? t ↔
    (⟨m.kind, m.name⟩, start, stop) ∈ placed
  places : ∀ n start stop, .hit n start stop ∈ pieces stackPlace? t ↔
    (⟨"stack", n⟩, start, stop) ∈ placed
  openers : ∀ key start stop, .hit key start stop ∈ pieces (markOf? "once") t ↔
    (⟨"once", key⟩, start, stop) ∈ placed
  closers : ∀ key, MarkerName key → ∀ start stop,
    .hit () start stop ∈ pieces (occurrence? (marker "endonce" key)) t ↔
      (⟨"endonce", key⟩, start, stop) ∈ placed
  /-- A once block starts with a marker that opens it, up to the next marker that closes its key. -/
  blocks : ∀ key start stop, (⟨"once", key⟩, start, stop) ∈ placed →
    once? (t.drop start) = (cutAt? (marker "endonce" key) (t.drop stop)).map fun (body, _) =>
      ((key, body), stop - start + body.length + (marker "endonce" key).length)

/-- Where a marker opens a once block, the block is read up to the next marker that closes its key. -/
theorem once?_opener {key a b t : Text} (hk : MarkerName key)
    (whole : t = a ++ (marker "once" key ++ b)) : once? (t.drop a.length) =
      (cutAt? (marker "endonce" key) (t.drop (a.length + (marker "once" key).length))).map
        fun (body, _) => ((key, body),
          a.length + (marker "once" key).length - a.length + body.length +
            (marker "endonce" key).length) := by
  have listed : "once".toList ∈ stackNames := by decide
  have read : markOf? "once" (marker "once" key ++ b) = some (key, (marker "once" key).length) :=
    (markReader_markOf? "once" listed).found ⟨listed, hk⟩ b
  have behind : t.drop (a.length + (marker "once" key).length) = b := by
    rw [whole, ← List.append_assoc, ← List.length_append, List.drop_left]
  rw [behind, whole, List.drop_left, Nat.add_sub_cancel_left, once?_eq, read, Option.bind_some]
  simp only [List.drop_left]

/-- **What is written is read back.**  In a text that held no lead of a marker, the readers of the
printed page find the markers that took the places of directives, each where it was put and as what it
is, and nothing else; and closing markers close what was opened last. -/
theorem rewriteStackMarkers_read {t : Text} (h : ¬ markLead <:+: t) :
    ∃ placed : List (Mark × Nat × Nat),
      (passEdits stackNames (stackMarker? t) [] t).map Edit.new = placed.map (·.1.shown) ∧
      landings (passEdits stackNames (stackMarker? t) [] t) = placed.map Prod.snd ∧
      (∀ p ∈ placed, p.1.Known) ∧ ReadBack (rewriteStackMarkers t) placed ∧
      Nested (placed.map Prod.fst) := by
  obtain ⟨ms, s, written, known, run⟩ := editsOf_run t (s := []) nofun (directives t)
  have order : InOrder t.length 0 (passEdits stackNames (stackMarker? t) [] t) := by
    have laid := laid_scanFrom none 0 0 t (Nat.zero_le _)
    rw [Nat.zero_add] at laid
    exact inOrder_editsOf stackNames (stackMarker? t) [] laid
  obtain ⟨es, he⟩ : ∃ es, es = passEdits stackNames (stackMarker? t) [] t := ⟨_, rfl⟩
  have out : rewriteStackMarkers t = applyEdits t es := he ▸ rfl
  change (passEdits stackNames (stackMarker? t) [] t).map Edit.new = ms.map Mark.shown at written
  rw [out]
  rw [← he] at written order ⊢
  have length : ms.length = (landings es).length := by
    rw [landings, length_landingsFrom, ← List.length_map (f := Mark.shown), ← written, List.length_map]
  have landed : ∀ p ∈ ms.zip (landings es), ∃ a b,
      applyEdits t es = a ++ (p.1.shown ++ b) ∧ p.2 = (a.length, a.length + p.1.shown.length) := by
    have each := exists_of_mem_landingsFrom (u := []) order
    rw [written, List.zip_map_left, List.forall_mem_map] at each
    exact each
  have found {α : Type} {find : Recogniser α} {mark : α → Mark} (reader : MarkReader find mark) (a : α)
      (start stop : Nat) := reader.hit_mem_piecesFrom h written known order 0 a start stop
  have first : (ms.zip (landings es)).map Prod.fst = ms := List.map_fst_zip length.le
  refine ⟨ms.zip (landings es), ?_, (List.map_snd_zip length.ge).symm, fun p hp => ?_,
    ⟨landed, found markReader_fragmentMarker?, found markReader_stackPlace?,
      found (markReader_markOf? "once" (by decide)),
      fun key hk => found (markReader_closer hk) (), fun key start stop here => ?_⟩, ?_⟩
  · rw [written, ← congrArg (List.map Mark.shown) first, List.map_map]
    rfl
  · exact known _ (List.of_mem_zip hp).1
  · obtain ⟨a, b, whole, span⟩ := landed _ here
    obtain ⟨rfl, rfl⟩ : start = a.length ∧ stop = a.length + (marker "once" key).length :=
      Prod.mk.inj span
    have named : MarkerName key := (known _ (List.of_mem_zip here).1).name
    exact once?_opener named whole
  · rw [first]
    exact run.nested

/-- Two kinds of blocks that overlap. -/
theorem rewriteStackMarkers_read_overlapping : ∃ t : Text,
    t = "@push('a')<!--@once('k-')@endpush-->@endonce@stack('a')" ∧ ¬ markLead <:+: t ∧
    ∃ placed : List (Mark × Nat × Nat),
      landings (passEdits stackNames (stackMarker? t) [] t) = placed.map Prod.snd ∧
      ReadBack (rewriteStackMarkers t) placed ∧ Nested (placed.map Prod.fst) := by
  have absent : ¬ markLead <:+: "@push('a')<!--@once('k-')@endpush-->@endonce@stack('a')".toList := by
    decide +kernel
  obtain ⟨placed, -, landed, -, read, nested⟩ := rewriteStackMarkers_read absent
  exact ⟨_, rfl, absent, placed, landed, read, nested⟩

end Pagewright.Assembly
