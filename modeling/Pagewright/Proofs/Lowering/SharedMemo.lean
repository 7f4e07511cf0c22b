import Mathlib.Control.Monad.Basic
import Pagewright.Lowering.Transform
import Pagewright.Proofs.Digest.Fingerprint

/-! # A memo shared between delimiters

One memo can serve texts under several pairs of delimiters.  Its keys are made from what is hashed
for a request (`Request.hashed`): the delimiters with a bar between them and the text behind them,
or the text alone under the usual delimiters.  Requests that hash the same are answered for each
other, so the memo does not show exactly when such requests have one rewritten form
(`answers_transparent`).  That is so when no start delimiter holds a bar and no null character can
be taken for the one in front of the text (`Request.Unambiguous`), but not for every choice of
delimiters (`answers_transparent_bars`). -/

/-! ## Rewriting from memory

A memo answers by fingerprint.  For texts of which no two have one fingerprint (`Apart`), a memo
that holds nothing but their rewritten forms (`Recalls`) never changes what rewriting gives, however
its entries grow old or make room for others (`Recalls.transformKept`). -/

namespace Pagewright.Memo

/-! ### Entries -/

/-- Asking brings nothing into a memo. -/
theorem get_entries_subset (m : Memo) (now : Rat) (k : Text) :
    (m.get now k).2.entries ⊆ m.entries := by
  unfold get
  split
  · split
    · exact List.Subset.refl _
    · next e he =>
      have others : m.others k ⊆ m.entries := fun d hd => (List.mem_filter.mp hd).1
      split
      · exact others
      · have hm : e ∈ m.entries := List.mem_of_find?_eq_some he
        exact List.append_subset.mpr ⟨others, fun d hd => List.mem_singleton.mp hd ▸ hm⟩
  · exact List.Subset.refl _

/-- What is found stands in the memo under the key that was asked for. -/
theorem mem_of_get_eq_some (m : Memo) {now : Rat} {k kept : Text}
    (h : (m.get now k).1 = some kept) : ∃ e ∈ m.entries, e.key = k ∧ e.value = kept := by
  unfold get at h
  split at h
  · split at h
    · cases h
    · next e he =>
      split at h
      · cases h
      · have hb := List.find?_some he
        exact ⟨e, List.mem_of_find?_eq_some he, beq_iff_eq.mp hb, Option.some.inj h⟩
  · cases h

/-- Setting brings nothing but the new entry into a memo. -/
theorem mem_of_mem_set (m : Memo) {now : Rat} {k new : Text} {e : Entry}
    (he : e ∈ (m.set now k new).entries) : e ∈ m.entries ∨ e.key = k ∧ e.value = new := by
  unfold set at he
  split at he
  · obtain he | he := List.mem_append.mp (List.mem_of_mem_drop he)
    · exact .inl (List.mem_filter.mp he).1
    · obtain rfl := List.mem_singleton.mp he
      exact .inr ⟨rfl, rfl⟩
  · exact .inl he

end Pagewright.Memo

namespace Pagewright.Lowering

/-- No two different texts are kept under one key. -/
def Apart (ds : Delimiters) (ts : List Text) : Prop :=
  ∀ t ∈ ts, ∀ u ∈ ts, memoKey ds t = memoKey ds u → t = u

/-- Whatever a memo holds under the key of one of the texts is the rewritten form of that text. -/
def Recalls (ds : Delimiters) (ts : List Text) (m : Memo) : Prop :=
  ∀ e ∈ m.entries, ∀ t ∈ ts, e.key = memoKey ds t → transform ds t = .ok e.value

variable {ds : Delimiters} {ts : List Text} {m : Memo}

theorem apart_single (ds : Delimiters) (t : Text) : Apart ds [t] := by
  intro u hu v hv _
  rw [List.mem_singleton.mp hu, List.mem_singleton.mp hv]

theorem apart_pair {t u : Text} (h : memoKey ds t ≠ memoKey ds u) : Apart ds [t, u] := by
  intro v hv w hw e
  obtain rfl | rfl : v = t ∨ v = u := by simpa using hv
  · obtain rfl | rfl : w = v ∨ w = u := by simpa using hw
    · rfl
    · exact absurd e h
  · obtain rfl | rfl : w = t ∨ w = v := by simpa using hw
    · exact absurd e.symm h
    · rfl

theorem Recalls.of_subset {m' : Memo} (h : Recalls ds ts m) (hs : m'.entries ⊆ m.entries) :
    Recalls ds ts m' := fun e he => h e (hs he)

/-- Asking for a text gives its rewritten form or nothing. -/
theorem Recalls.get (h : Recalls ds ts m) (now : Rat) {t : Text} (ht : t ∈ ts) :
    Recalls ds ts (m.get now (memoKey ds t)).2 ∧
      ∀ kept, (m.get now (memoKey ds t)).1 = some kept → transform ds t = .ok kept := by
  refine ⟨h.of_subset (m.get_entries_subset now _), fun kept hk => ?_⟩
  obtain ⟨e, he, hkey, rfl⟩ := m.mem_of_get_eq_some hk
  exact h e he t ht hkey

/-- A rewritten form that is set is found only under the text it was made from. -/
theorem Recalls.set (h : Recalls ds ts m) (ha : Apart ds ts) (now : Rat) {t new : Text}
    (ht : t ∈ ts) (hn : transform ds t = .ok new) :
    Recalls ds ts (m.set now (memoKey ds t) new) := by
  intro e he u hu hk
  obtain he | ⟨hkey, rfl⟩ := m.mem_of_mem_set he
  · exact h e he u hu hk
  · rw [← ha t ht u hu (hkey.symm.trans hk)]
    exact hn

/-- **A memo does not show**: what is taken from it is what rewriting gives. -/
theorem Recalls.transformKept (h : Recalls ds ts m) (ha : Apart ds ts) (now : Rat) {t : Text}
    (ht : t ∈ ts) :
    ∃ m', transformKept ds now t m = (transform ds t, m') ∧ Recalls ds ts m' := by
  obtain ⟨hm, hv⟩ := h.get now ht
  unfold Lowering.transformKept
  split
  · simp only
    match hg : m.get now (memoKey ds t) with
    | (some kept, m') =>
        rw [hg] at hm hv
        rw [hv kept rfl]
        exact ⟨m', rfl, hm⟩
    | (none, m') =>
        rw [hg] at hm
        cases hn : transform ds t with
        | ok new => exact ⟨m'.set now (memoKey ds t) new, rfl, hm.set ha now ht hn⟩
        | error e => exact ⟨m', rfl, hm⟩
  · next hd =>
    have plain : transform ds t = .ok t := by
      unfold transform
      rw [if_neg hd]
    rw [plain]
    exact ⟨m, rfl, h⟩

/-- A memo without entries can be trusted. -/
theorem recalls_of_entries_nil (hm : m.entries = []) : Recalls ds ts m := by
  intro e he
  rw [hm] at he
  cases he

end Pagewright.Lowering

namespace Pagewright.Lowering

/-- A text to be rewritten under some delimiters. -/
structure Request where
  delimiters : Delimiters
  text : Text
  deriving DecidableEq

namespace Request

/-- What a request gives without a memo. -/
def plain (r : Request) : Except Failure Text := transform r.delimiters r.text

/-- What is hashed to know a request again. -/
def hashed (r : Request) : Text :=
  if (keySpace r.delimiters).isEmpty then r.text else keySpace r.delimiters ++ '\x00' :: r.text

/-- The bytes that are hashed. -/
def bytes (r : Request) : List Nat := Text.utf8 r.hashed

/-- The key of a request in a memo. -/
def key (r : Request) : Text := memoKey r.delimiters r.text

/-- What is hashed for a request can be hashed for no other one: a text under the usual delimiters
holds no null character, and other delimiters cannot be cut in another way. -/
def Unambiguous (r : Request) : Prop :=
  if r.delimiters = {} then '\x00' ∉ r.text
  else '|' ∉ r.delimiters.start ∧ '\x00' ∉ r.delimiters.stop

instance (r : Request) : Decidable r.Unambiguous :=
  inferInstanceAs (Decidable (if r.delimiters = {} then _ else _))

/-- One request can be answered by what was kept for another one. -/
structure Shadows (r r' : Request) : Prop where
  first : mayHoldDirectives r.text
  second : mayHoldDirectives r'.text
  hashed : r.hashed = r'.hashed
  ok : ∃ new, r.plain = .ok new

/-- No two of the byte strings that are hashed for some requests have one digest. -/
def Collisionless (rs : List Request) : Prop :=
  ∀ r ∈ rs, ∀ r' ∈ rs, Sha256.digest r.bytes = Sha256.digest r'.bytes → r.bytes = r'.bytes

theorem Collisionless.hashed_eq {rs : List Request} (h : Collisionless rs) {r r' : Request}
    (hr : r ∈ rs) (hr' : r' ∈ rs) (hk : r.key = r'.key) : r.hashed = r'.hashed :=
  Text.utf8_injective _ _ (h r hr r' hr' (Sha256.digest_of_hexDigest_eq hk))

/-! ### Reading a request off what is hashed -/

theorem hashed_usual {r : Request} (h : r.delimiters = {}) : r.hashed = r.text := by
  rw [hashed, keySpace, if_pos h, List.isEmpty_nil, if_pos rfl]

theorem hashed_of_ne {r : Request} (h : r.delimiters ≠ {}) :
    r.hashed = r.delimiters.start ++ '|' :: (r.delimiters.stop ++ '\x00' :: r.text) := by
  have hspace : (r.delimiters.start ++ '|' :: r.delimiters.stop).isEmpty = false := by simp
  rw [hashed, keySpace, if_neg h, hspace, if_neg Bool.false_ne_true, List.append_assoc,
    List.cons_append]

/-- Texts that agree are cut alike at the first place of a character. -/
theorem cut_inj {x : Char} : ∀ {t u v w : Text}, x ∉ t → x ∉ u → t ++ x :: v = u ++ x :: w →
    t = u ∧ v = w
  | [], [], _, _, _, _, h => ⟨rfl, (List.cons.inj h).2⟩
  | [], y :: u, _, _, _, hu, h => absurd (List.cons.inj h).1 (List.ne_of_not_mem_cons hu)
  | y :: t, [], _, _, ht, _, h => absurd (List.cons.inj h).1.symm (List.ne_of_not_mem_cons ht)
  | y :: t, z :: u, _, _, ht, hu, h => by
    obtain ⟨rfl, hrest⟩ := List.cons.inj h
    obtain ⟨rfl, hv⟩ := cut_inj (List.not_mem_of_not_mem_cons ht)
      (List.not_mem_of_not_mem_cons hu) hrest
    exact ⟨rfl, hv⟩

theorem Unambiguous.null_not_mem_iff {r : Request} (h : r.Unambiguous) :
    '\x00' ∉ r.hashed ↔ r.delimiters = {} := by
  by_cases hd : r.delimiters = {}
  · rw [Unambiguous, if_pos hd] at h
    rw [hashed_usual hd]
    exact iff_of_true h hd
  · rw [hashed_of_ne hd]
    exact iff_of_false (by simp) hd

/-- Unambiguous requests can be told apart by what is hashed for them. -/
theorem Unambiguous.eq_of_hashed_eq {r r' : Request} (h : r.Unambiguous) (h' : r'.Unambiguous)
    (he : r.hashed = r'.hashed) : r = r' := by
  obtain ⟨ds, t⟩ := r
  obtain ⟨ds', t'⟩ := r'
  have hboth : ds = {} ↔ ds' = {} :=
    h.null_not_mem_iff.symm.trans (he ▸ h'.null_not_mem_iff)
  by_cases hd : ds = {}
  · have hd' := hboth.mp hd
    rw [hashed_usual hd, hashed_usual hd'] at he
    exact congr (congrArg Request.mk (hd.trans hd'.symm)) he
  · have hd' := mt hboth.mpr hd
    rw [hashed_of_ne hd, hashed_of_ne hd'] at he
    rw [Unambiguous, if_neg hd] at h
    rw [Unambiguous, if_neg hd'] at h'
    obtain ⟨hstart, hrest⟩ := cut_inj h.1 h'.1 he
    obtain ⟨hstop, ht⟩ := cut_inj h.2 h'.2 hrest
    exact congr (congrArg Request.mk (congr (congrArg Delimiters.mk hstart) hstop)) ht

end Request

open Request

/-! ### Requests one after another -/

/-- The answers to requests, each made some time after the one before it. -/
def answers (now : Rat) (m : Memo) : List (Rat × Request) → List (Except Failure Text)
  | [] => []
  | (wait, r) :: steps =>
    let answer := transformKept r.delimiters (now + wait) r.text m
    answer.1 :: answers (now + wait) answer.2 steps

/-- No answer to any of these requests shows that there is a memo, whatever it can hold, however
long it keeps it and in whatever order the requests are made. -/
def Transparent (rs : List Request) : Prop :=
  ∀ (m : Memo) (now : Rat) (steps : List (Rat × Request)), m.entries = [] →
    (∀ s ∈ steps, s.2 ∈ rs) → answers now m steps = steps.map fun s => s.2.plain

/-- All that a memo holds was made for one of some requests. -/
def Kept (rs : List Request) (m : Memo) : Prop :=
  ∀ e ∈ m.entries, ∃ r ∈ rs, mayHoldDirectives r.text ∧ e.key = r.key ∧ r.plain = .ok e.value

variable {rs : List Request} {m : Memo}

theorem Kept.get (h : Kept rs m) (now : Rat) (k : Text) :
    Kept rs (m.get now k).2 ∧ ∀ kept, (m.get now k).1 = some kept →
      ∃ r ∈ rs, mayHoldDirectives r.text ∧ r.key = k ∧ r.plain = .ok kept := by
  refine ⟨fun e he => h e (m.get_entries_subset now k he), fun kept hk => ?_⟩
  obtain ⟨e, he, rfl, rfl⟩ := m.mem_of_get_eq_some hk
  obtain ⟨r, hr, hd, hkey, hp⟩ := h e he
  exact ⟨r, hr, hd, hkey.symm, hp⟩

theorem Kept.set (h : Kept rs m) (now : Rat) {r : Request} (hr : r ∈ rs)
    (hd : mayHoldDirectives r.text) {new : Text} (hp : r.plain = .ok new) :
    Kept rs (m.set now r.key new) := by
  intro e he
  obtain he | ⟨hk, rfl⟩ := m.mem_of_mem_set he
  · exact h e he
  · exact ⟨r, hr, hd, hk, hp⟩

/-- **One request**: it is answered by its own rewritten form, or by that of a request which is
kept under the same key. -/
theorem Kept.transformKept (h : Kept rs m) (hc : Collisionless rs) (now : Rat) {r : Request}
    (hr : r ∈ rs) :
    Kept rs (transformKept r.delimiters now r.text m).2 ∧
      ((transformKept r.delimiters now r.text m).1 = r.plain ∨
        ∃ r' ∈ rs, r'.Shadows r ∧ (transformKept r.delimiters now r.text m).1 = r'.plain) := by
  obtain ⟨hm, hv⟩ := h.get now r.key
  unfold Lowering.transformKept
  split
  · next hd =>
    simp only
    match hg : m.get now r.key with
    | (some kept, m') =>
        rw [hg] at hm hv
        obtain ⟨r', hr', hd', hk, hp⟩ := hv kept rfl
        have hs : r'.Shadows r := ⟨hd', hd, hc.hashed_eq hr' hr hk, kept, hp⟩
        exact ⟨hm, .inr ⟨r', hr', hs, hp.symm⟩⟩
    | (none, m') =>
        rw [hg] at hm
        cases hn : transform r.delimiters r.text with
        | ok new => exact ⟨hm.set now hr hd hn, .inl hn.symm⟩
        | error e => exact ⟨hm, .inl hn.symm⟩
  · next hd =>
    have plain : r.plain = .ok r.text := by
      unfold Request.plain transform
      rw [if_neg hd]
    exact ⟨h, .inl plain.symm⟩

/-- **A run of requests**: where shadowing does not matter, all of them are answered by their own
rewritten forms. -/
theorem Kept.answers (hc : Collisionless rs)
    (hs : ∀ r ∈ rs, ∀ r' ∈ rs, r.Shadows r' → r'.plain = r.plain) :
    ∀ (m : Memo) (now : Rat) (steps : List (Rat × Request)), Kept rs m →
      (∀ s ∈ steps, s.2 ∈ rs) → answers now m steps = steps.map fun s => s.2.plain
  | _, _, [], _, _ => rfl
  | m, now, (wait, r) :: steps, h, hrs => by
    have hr : r ∈ rs := hrs (wait, r) List.mem_cons_self
    obtain ⟨hm, ha⟩ := h.transformKept hc (now + wait) hr
    have own : (Lowering.transformKept r.delimiters (now + wait) r.text m).1 = r.plain := by
      obtain ha | ⟨r', hr', hsh, ha⟩ := ha
      · exact ha
      · exact ha.trans (hs r' hr' r hr hsh).symm
    have rest := Kept.answers hc hs _ (now + wait) steps hm
      fun s hm => hrs s (List.mem_cons_of_mem _ hm)
    rw [Lowering.answers, own, rest, List.map_cons]

theorem kept_of_entries_nil (hm : m.entries = []) : Kept rs m := by
  intro e he
  rw [hm] at he
  cases he

/-! ### When a shared memo shows -/

/-- What a new memo is given for one request it gives at once for another one of the same key. -/
theorem answers_shadowed {r r' : Request} (h : r.Shadows r') :
    answers 0 {} [(0, r), (0, r')] = [r.plain, r.plain] := by
  obtain ⟨new, hp⟩ := h.ok
  have hk : memoKey r'.delimiters r'.text = memoKey r.delimiters r.text :=
    congrArg Sha256.hexDigest h.hashed.symm
  have hp' : transform r.delimiters r.text = .ok new := hp
  have young : ¬ (300 : Rat) < 0 := by decide
  simp [answers, young, transformKept, h.first, h.second, hk, hp, hp', Memo.get, Memo.set,
    Memo.isEnabled, Memo.find?, Memo.others, Memo.isStale, Lifetime.isOver]

/-- **A shared memo** shows exactly when a request can be answered by what was kept for another one
with another rewritten form, which no unambiguous request can. -/
theorem answers_transparent (rs : List Request) (hc : Collisionless rs) :
    (Transparent rs ↔ ∀ r ∈ rs, ∀ r' ∈ rs, r.Shadows r' → r'.plain = r.plain) ∧
      ((∀ r ∈ rs, r.Unambiguous) → Transparent rs) := by
  have enough (hs : ∀ r ∈ rs, ∀ r' ∈ rs, r.Shadows r' → r'.plain = r.plain) : Transparent rs :=
    fun m now steps hm hrs => Kept.answers hc hs m now steps (kept_of_entries_nil hm) hrs
  refine ⟨⟨fun ht r hr r' hr' hs => ?_, enough⟩, fun hu => enough fun r hr r' hr' hs => ?_⟩
  · have run := ht {} 0 [(0, r), (0, r')] rfl (by simp [hr, hr'])
    rw [answers_shadowed hs] at run
    exact (List.cons.inj (List.cons.inj run).2).1.symm
  · rw [(hu r hr).eq_of_hashed_eq (hu r' hr') hs.hashed]

/-- One text under two pairs of delimiters between which a bar can be shifted. -/
def barred : List Request := [⟨⟨"a|b", "c"⟩, "@json(1)"⟩, ⟨⟨"a", "b|c"⟩, "@json(1)"⟩]

/-- One text under the usual delimiters and under others. -/
def bracketed : List Request := [⟨{}, "@json(1)"⟩, ⟨⟨"[[", "]]"⟩, "@json(1)"⟩]

theorem collisionless_pair {r r' : Request}
    (h : (Sha256.digest r.bytes).a = (Sha256.digest r'.bytes).a → r.bytes = r'.bytes) :
    Collisionless [r, r'] := by
  intro s hs s' hs' hd
  obtain rfl | rfl : s = r ∨ s = r' := by simpa using hs
  · obtain rfl | rfl : s' = s ∨ s' = r' := by simpa using hs'
    · rfl
    · exact h (congrArg Sha256.State.a hd)
  · obtain rfl | rfl : s' = r ∨ s' = s := by simpa using hs'
    · exact (h (congrArg Sha256.State.a hd.symm)).symm
    · rfl

/-- The second of the texts with a shifted bar is answered by what was kept for the first one; the
usual delimiters and brackets do not get in each other's way. -/
theorem answers_transparent_bars :
    (Collisionless barred ∧ ¬ Transparent barred) ∧
      (Collisionless bracketed ∧ Transparent bracketed) := by
  have hb : Collisionless barred := collisionless_pair fun _ => by decide +kernel
  have hu : Collisionless bracketed := collisionless_pair fun h => absurd h (by decide +kernel)
  refine ⟨⟨hb, fun ht => ?_⟩, hu, (answers_transparent bracketed hu).2 ?_⟩
  · have hs : Shadows ⟨⟨"a|b", "c"⟩, "@json(1)"⟩ ⟨⟨"a", "b|c"⟩, "@json(1)"⟩ :=
      ⟨by decide, by decide, by decide, "a|b _hk_json((1), false) c", by decide +kernel⟩
    have same := (answers_transparent barred hb).1.mp ht _ (by simp [barred]) _ (by simp [barred]) hs
    exact absurd same (by decide +kernel)
  · decide

end Pagewright.Lowering
