import Pagewright.Proofs.Text.Scan
import Pagewright.Assembly.IncludeTag

/-! # Tags and the stretches between them

The outermost tags of a text stand one behind the other (`Ranged`), so the text is made of the
stretches between its tags and of the sources of the tags, alternately (`weave_sources`).  Replacing
the tags changes nothing but what stands between the stretches (`replaceTags_eq_weave`).

Main definitions: `stretches`, `weave`, `IncludeTag.source`. -/

namespace Pagewright

open Text

/-- What a tag is written as in its text. -/
def IncludeTag.source (t : Text) (tag : IncludeTag) : Text := slice t tag.start tag.stop

namespace Assembly

/-! ### Weaving -/

/-- The stretches between some tags of a text, from offset `last` on. -/
def stretchesFrom (t : Text) : Nat → List IncludeTag → List Text
  | last, [] => [t.drop last]
  | last, tag :: tags => slice t last tag.start :: stretchesFrom t tag.stop tags

/-- The stretches of a text before, between and behind its outermost tags. -/
def stretches (t : Text) : List Text := stretchesFrom t 0 (includeTags t)

/-- Stretches with something between each two of them. -/
def weave : List Text → List Text → Text
  | p :: ps, k :: ks => p ++ k ++ weave ps ks
  | ps, _ => ps.flatten

theorem length_stretchesFrom (t : Text) : ∀ (last : Nat) (tags : List IncludeTag),
    (stretchesFrom t last tags).length = tags.length + 1
  | _, [] => rfl
  | _, tag :: tags => by rw [stretchesFrom, List.length_cons, length_stretchesFrom t tag.stop tags,
      List.length_cons]

/-- There is one stretch more than there are tags. -/
theorem length_stretches (t : Text) : (stretches t).length = (includeTags t).length + 1 :=
  length_stretchesFrom t 0 _

/-- The tags from number `n` on are replaced by what is given from number `n` on. -/
theorem editFrom_tags (t : Text) (new : List Text) : ∀ (tags : List IncludeTag) (n last : Nat),
    new.length = n + tags.length →
    editFrom t last ((tags.zipIdx n).map fun (tag, i) => ⟨tag.start, tag.stop, (new[i]?).getD []⟩) =
      weave (stretchesFrom t last tags) (new.drop n)
  | [], n, last, h => by
      have done : new.drop n = [] := List.drop_eq_nil_of_le (Nat.le_of_eq h)
      rw [List.zipIdx_nil, List.map_nil, editFrom, stretchesFrom, done]
      exact (List.append_nil (t.drop last)).symm
  | tag :: tags, n, last, h => by
      rw [List.length_cons] at h
      have hn : n < new.length := by omega
      have ih := editFrom_tags t new tags (n + 1) tag.stop (by omega)
      rw [List.zipIdx_cons, List.map_cons, editFrom, ih, stretchesFrom, List.drop_eq_getElem_cons hn,
        weave]
      simp only [List.getElem?_eq_getElem hn, Option.getD_some]

/-- **Replacing the tags of a text keeps the stretches between them.** -/
theorem replaceTags_eq_weave {t : Text} {new : List Text}
    (h : new.length = (includeTags t).length) : replaceTags t new = weave (stretches t) new := by
  have e := editFrom_tags t new (includeTags t) 0 0 (by rw [h, Nat.zero_add])
  rw [List.drop_zero] at e
  exact e

/-! ### Where tags stand -/

/-- A recogniser covers no more than there is. -/
theorem piecesFrom_bounded {α : Type} {find : Recogniser α}
    (hf : ∀ v a n, find v = some (a, n) → n ≤ v.length) {a : α} {start stop : Nat} :
    ∀ (pos skip : Nat) (t : Text), .hit a start stop ∈ piecesFrom find pos skip t →
      start ≤ stop ∧ stop ≤ pos + t.length
  | _, _, [], h => by
      rw [piecesFrom] at h
      cases h
  | pos, k + 1, _ :: r, h => by
      rw [piecesFrom] at h
      have ih := piecesFrom_bounded hf (pos + 1) k r h
      rw [List.length_cons]
      omega
  | pos, 0, c :: r, h => by
      rw [piecesFrom] at h
      split at h
      · next b n hb =>
        obtain h | h := List.mem_cons.mp h
        · have bound := hf _ _ _ hb
          obtain ⟨rfl, rfl, rfl⟩ : a = b ∧ start = pos ∧ stop = pos + n := by simpa using h
          omega
        · have ih := piecesFrom_bounded hf (pos + 1) (n - 1) r h
          rw [List.length_cons]
          omega
      · obtain h | h := List.mem_cons.mp h
        · cases h
        · have ih := piecesFrom_bounded hf (pos + 1) 0 r h
          rw [List.length_cons]
          omega

theorem length_of_dropName? : ∀ {name t r : Text}, dropName? name t = some r →
    t.length = name.length + r.length
  | [], t, r, h => by
      rw [dropName?] at h
      obtain rfl := Option.some.inj h
      simp
  | l :: ls, [], r, h => by simp [dropName?] at h
  | l :: ls, c :: cs, r, h => by
      rw [dropName?] at h
      split at h
      · have ih := length_of_dropName? h
        simp only [List.length_cons]
        omega
      · cases h

theorem boundary?_bounded (v : Text) (closing : Bool) (n : Nat)
    (h : boundary? v = some (closing, n)) : n ≤ v.length := by
  unfold boundary? at h
  split at h
  · next r =>
    simp only [Option.bind_eq_bind, Option.bind_eq_some_iff] at h
    obtain ⟨_, _, _, _, e⟩ := h
    obtain ⟨-, rfl⟩ := Prod.mk.inj (Option.some.inj e)
    exact Nat.sub_le _ _
  · next r _ =>
    simp only [Option.bind_eq_bind, Option.bind_eq_some_iff] at h
    obtain ⟨rest, hr, e⟩ := h
    have seven := length_of_dropName? hr
    split at e
    · cases e
    · obtain ⟨-, rfl⟩ := Prod.mk.inj (Option.some.inj e)
      rw [List.length_cons, seven]
      show 8 ≤ 7 + rest.length + 1
      omega
  · cases h

/-- A boundary stands inside of its text. -/
theorem boundaries_bounded {t : Text} {b : Boundary} (h : b ∈ boundaries t) :
    b.start ≤ b.stop ∧ b.stop ≤ t.length := by
  obtain ⟨p, hp, hb⟩ := List.mem_filterMap.mp h
  cases p with
  | char c => cases hb
  | hit closing start stop =>
      dsimp only at hb
      split at hb
      · cases hb
      · obtain rfl := Option.some.inj hb
        have bound := piecesFrom_bounded boundary?_bounded 0 0 t hp
        rwa [Nat.zero_add] at bound

/-- Tags that stand one behind the other in a text, from an offset on. -/
def Ranged (t : Text) : Nat → List IncludeTag → Prop
  | last, [] => last ≤ t.length
  | last, tag :: tags => last ≤ tag.start ∧ tag.start ≤ tag.stop ∧ Ranged t tag.stop tags

/-- What lies in front of the first tag does not count. -/
theorem Ranged.mono {t : Text} {last last' : Nat} (h : last' ≤ last) :
    ∀ {tags : List IncludeTag}, Ranged t last tags → Ranged t last' tags
  | [], hr => Nat.le_trans h hr
  | _ :: _, ⟨h₁, h₂, h₃⟩ => ⟨Nat.le_trans h h₁, h₂, h₃⟩

/-- The attributes of a tag end in front of the end of the text. -/
theorem attributesLength?_lt : ∀ {q : Option Char} {r : Text} {n : Nat},
    attributesLength? q r = some n → n < r.length
  | q, [], n, h => by cases q <;> cases h
  | some q, c :: r, n, h => by
      rw [attributesLength?] at h
      obtain ⟨m, hm, rfl⟩ := Option.map_eq_some_iff.mp h
      exact Nat.succ_lt_succ (attributesLength?_lt hm)
  | none, c :: r, n, h => by
      rw [attributesLength?] at h
      split at h
      · obtain rfl := Option.some.inj h
        exact Nat.succ_pos _
      · obtain ⟨m, hm, rfl⟩ := Option.map_eq_some_iff.mp h
        exact Nat.succ_lt_succ (attributesLength?_lt hm)

/-- A tag ends inside of its text. -/
theorem tagEnd?_bounded {t : Text} {start e : Nat} (h : tagEnd? t start = some e) :
    start ≤ e ∧ e < t.length := by
  obtain ⟨n, hn, rfl⟩ := Option.map_eq_some_iff.mp h
  have bound := attributesLength?_lt hn
  rw [List.length_drop] at bound
  omega

/-- A boundary that closes a tag stands behind it. -/
theorem closing?_behind {t : Text} : ∀ {depth pos : Nat} {bs : List Boundary} {c : Boundary},
    (∀ b ∈ bs, b.start ≤ b.stop) → closing? t depth pos bs = some c → c ∈ bs ∧ pos ≤ c.start
  | _, _, [], _, _, h => by
      rw [closing?] at h
      cases h
  | depth, pos, b :: bs, c, hb, h => by
      obtain ⟨own, others⟩ := List.forall_mem_cons.mp hb
      rw [closing?.eq_def] at h
      dsimp only at h
      split at h
      · obtain ⟨hm, hp⟩ := closing?_behind others h
        exact ⟨List.mem_cons_of_mem b hm, hp⟩
      · split at h
        · cases depth with
          | zero =>
              obtain rfl := Option.some.inj h
              exact ⟨List.mem_cons_self, by omega⟩
          | succ depth =>
              obtain ⟨hm, hp⟩ := closing?_behind others h
              exact ⟨List.mem_cons_of_mem b hm, by omega⟩
        · split at h
          · cases h
          · next e he =>
            have bound := tagEnd?_bounded he
            obtain ⟨hm, hp⟩ := closing?_behind others h
            exact ⟨List.mem_cons_of_mem b hm, by omega⟩

theorem ranged_tagsFrom {t : Text} : ∀ (pos : Nat) (bs : List Boundary),
    (∀ b ∈ bs, b.start ≤ b.stop ∧ b.stop ≤ t.length) → pos ≤ t.length →
    Ranged t pos (tagsFrom t pos bs)
  | _, [], _, hp => hp
  | pos, b :: bs, hb, hp => by
      obtain ⟨own, others⟩ := List.forall_mem_cons.mp hb
      rw [tagsFrom]
      split
      · exact ranged_tagsFrom pos bs others hp
      split
      · exact (ranged_tagsFrom b.stop bs others own.2).mono (by omega)
      split
      · exact hp
      next e he =>
        have bound := tagEnd?_bounded he
        have front : pos ≤ b.start := by omega
        have alone : b.start ≤ e + 1 := by omega
        dsimp only
        split
        · exact ⟨front, alone, ranged_tagsFrom (e + 1) bs others bound.2⟩
        · split
          · exact ⟨front, alone, ranged_tagsFrom (e + 1) bs others bound.2⟩
          · next c hc =>
            obtain ⟨hm, behind⟩ := closing?_behind (fun d hd => (others d hd).1) hc
            have inside := others c hm
            have around : b.start ≤ c.stop := by omega
            exact ⟨front, around, ranged_tagsFrom c.stop bs others inside.2⟩

/-- The outermost tags of a text stand one behind the other. -/
theorem ranged_includeTags (t : Text) : Ranged t 0 (includeTags t) :=
  ranged_tagsFrom 0 _ (fun _ => boundaries_bounded) (Nat.zero_le _)

theorem slice_append_drop (t : Text) {a b : Nat} (h : a ≤ b) : slice t a b ++ t.drop b = t.drop a := by
  have e : t.drop b = (t.drop a).drop (b - a) := by rw [List.drop_drop, Nat.add_sub_cancel' h]
  rw [slice, e, List.take_append_drop]

theorem weave_ranged (t : Text) : ∀ (last : Nat) (tags : List IncludeTag), Ranged t last tags →
    weave (stretchesFrom t last tags) (tags.map (·.source t)) = t.drop last
  | last, [], _ => List.append_nil (t.drop last)
  | last, tag :: tags, ⟨h₁, h₂, h₃⟩ => by
      rw [stretchesFrom, List.map_cons, weave, weave_ranged t tag.stop tags h₃, IncludeTag.source,
        List.append_assoc, slice_append_drop t h₂, slice_append_drop t h₁]

/-- **A text is made of its tags and the stretches between them.** -/
theorem weave_sources (t : Text) :
    weave (stretches t) ((includeTags t).map (·.source t)) = t :=
  weave_ranged t 0 _ (ranged_includeTags t)

end Assembly

end Pagewright
