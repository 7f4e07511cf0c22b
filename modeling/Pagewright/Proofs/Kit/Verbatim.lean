import Pagewright.Proofs.Kit.Single
import Pagewright.Proofs.Lowering.Verbatim
import Pagewright.Proofs.Template.Pieces

/-! # Verbatim pages

A page that is one verbatim block prints what the block encloses without its comments
(`Kit.Kept.render_verbatim`): directives, output expressions, include tags and layout directives in
it are text.  Comments are no exception to the order of the passes: they go first, inside a verbatim
block as outside of one (`Kit.render_verbatim_comment`), once when the layout is looked for and once
when the page is rewritten.

Main definition: `Quotable`. -/

namespace Pagewright

open Text Directive Lowering Assembly Template

/-! ### Closing tags -/

namespace Template

theorem dropHyphen_of_closing? {t : Text} (h : closing? tagStop true false t = none) :
    dropLead? tagStop ((dropLead? "-" t).getD t) = none := by
  cases t with
  | nil => rfl
  | cons c t =>
      rw [closing?_cons] at h
      by_cases hc : c = '-'
      · subst hc
        rw [if_pos rfl] at h
        cases hd : dropLead? tagStop t with
        | none => exact hd
        | some r =>
            rw [hd] at h
            cases h
      · have hyphen : dropLead? "-" (c :: t) = none := dropLead?_cons_of_ne _ t fun e => hc e.symm
        rw [hyphen]
        cases hd : dropLead? tagStop (c :: t) with
        | none => exact hd
        | some r =>
            have direct : closing?.direct tagStop false (c :: t) = some r := by
              unfold closing?.direct
              rw [hd]
              rfl
            rw [direct] at h
            split at h
            · cases hm : dropLead? tagStop t <;> rw [hm] at h <;> cases h
            · split at h
              · cases hm : dropLead? tagStop t <;> rw [hm] at h <;> cases h
              · cases h

/-- Behind its mark a tag reads the same for the rewriting and for the engine, but behind a plus
sign, which only the engine passes. -/
theorem dropHyphen_eq (t : Text) :
    (dropLead? "-" t).getD t = (mark t).2 ∨ ∃ w, (dropLead? "-" t).getD t = '+' :: w := by
  by_cases hyphen : t.head? = some '-'
  · obtain ⟨r, rfl⟩ := List.head?_eq_some_iff.mp hyphen
    exact Or.inl rfl
  · have kept : dropLead? "-" t = none := dropLead?_eq_none_of_head? hyphen
    rw [kept]
    unfold mark
    split
    · exact absurd rfl hyphen
    · exact Or.inr ⟨_, rfl⟩
    · exact Or.inl rfl

/-- Whatever the rewriting takes for a closing tag of a raw block, the engine does too. -/
theorem untagged_of_rawEnd? {t : Text} (h : Nowhere (rawEnd? {}) t) : Untagged "endraw" t := by
  intro v hv
  have unread := h v hv
  unfold Template.rawEnd? at unread
  unfold keywordTag?
  cases hl : dropLead? "\x7b%" v with
  | none => rfl
  | some r =>
      rw [hl] at unread
      simp only [Option.bind_eq_bind, Option.bind_some] at unread ⊢
      obtain same | ⟨w, plus⟩ := dropHyphen_eq r
      · rw [same]
        cases hw : dropLead? "endraw" (stripLeft (mark r).2) with
        | none => rfl
        | some r =>
            rw [hw] at unread
            simp only [Option.bind_some] at unread ⊢
            have closed : closing? tagStop true false (stripLeft r) = none := by
              cases hc : closing? tagStop true false (stripLeft r) with
              | none => rfl
              | some w =>
                  rw [hc] at unread
                  cases unread
            have stop : dropLead? "%\x7d" ((dropLead? "-" (stripLeft r)).getD (stripLeft r)) =
              none := dropHyphen_of_closing? closed
            rw [stop]
            rfl
      · rw [plus]
        rfl

end Template

/-! ### The page -/

namespace Assembly

/-- A text that a verbatim block prints as it is: the block encloses it, and it holds no line break
that the engine changes, no tag that closes a raw block, and no marker. -/
structure Quotable (t : Text) : Prop where
  enclosed : Enclosed t
  breaks : '\r' ∉ t
  unclosed : Nowhere (rawEnd? {}) t
  markless : Markless t

instance (t : Text) : Decidable (Quotable t) :=
  decidable_of_iff (Enclosed t ∧ '\r' ∉ t ∧ Nowhere (rawEnd? {}) t ∧ Markless t)
    ⟨fun ⟨a, b, c, d⟩ => ⟨a, b, c, d⟩, fun ⟨a, b, c, d⟩ => ⟨a, b, c, d⟩⟩

end Assembly

namespace Template

/-- A protected text is compiled to the text. -/
theorem compile_protect {d : Dialect} (hd : Exact d) {t : Text} (hr : '\r' ∉ t)
    (hx : Nowhere (rawEnd? {}) t) :
    compile d (protect t) = .ok ⟨(onePiece t).map .data, [], d.sandbox⟩ := by
  by_cases ht : t = []
  · subst ht
    have open_text : Parted d [] [] := (by decide : Unopened [])
    have empty : protect [] = interleaved [] [] := rfl
    rw [empty, compile_interleaved hd open_text List.not_mem_nil]
    rfl
  have given : ¬ t.isEmpty = true := fun e => ht (List.isEmpty_iff.mp e)
  have shape : protect t = interleaved [] [(t, [])] := by
    rw [protect, if_neg given, List.append_assoc]
    simp only [interleaved, List.nil_append, List.append_nil]
  have parted : Parted d [] [(t, [])] :=
    ⟨by decide, by decide, hd.rawEnd? ▸ hx, (by decide : Unopened [])⟩
  have breaks : '\r' ∉ protect t := by
    rw [protect, if_neg given]
    exact not_mem_append (not_mem_append (by decide) hr) (by decide)
  rw [shape] at breaks ⊢
  have one : spelt [] [(t, [])] = onePiece t := List.append_nil (onePiece t)
  rw [compile_interleaved hd parted breaks, one]

end Template

namespace Kit

variable {s : Settings} {l : Library} {ts : List Text} {k : Kit}

/-- A verbatim page is printed as what it encloses is collected. -/
theorem Kept.render_enclosed (h : k.Kept s l ts) (ha : Apart s.delimiters ts) (hs : s.Plain)
    {t : Text} {data : List (Value × Value)} (hd : Named data)
    (enclosed : Enclosed (stripComments (stripComments t)))
    (breaks : '\r' ∉ stripComments (stripComments t))
    (unclosed : Nowhere (rawEnd? {}) (stripComments (stripComments t)))
    (own : named ["extends"] (directives (verbatim (stripComments t))) = [])
    (ht : verbatim (stripComments t) ∈ ts) (now : Rat) (nonce page : Text) :
    ∃ k' : Kit, k.render now nonce (verbatim t) page data =
        (.ok ⟨(collect (stripComments (stripComments t)) []).1, page, [],
          (collect (stripComments (stripComments t)) []).2.length⟩, k') ∧ k'.Kept s l ts := by
  rw [← stripComments_verbatim] at own ht
  have lowered : transform s.delimiters (stripComments (verbatim t)) =
      .ok (protect (stripComments (stripComments t))) := by
    rw [stripComments_verbatim]
    exact transform_verbatim s.delimiters enclosed
  have untagged := includeTags_protect (untagged_of_rawEnd? unclosed)
  have compiled := compile_protect (hs.exact l) breaks unclosed
  have shown := render_pieces (onePiece (stripComments (stripComments t)))
    (Kit.fresh s l).press.dialect.sandbox (hs.named hd)
  rw [flatten_onePiece] at shown
  exact h.render_single ha hs.depth ht (fun d => flatten_unextended own page d) lowered untagged
    compiled shown now nonce

/-- **A verbatim page prints what the block encloses** without its comments, and nothing else comes
of it: nothing is noticed. -/
theorem Kept.render_verbatim (h : k.Kept s l ts) (ha : Apart s.delimiters ts) (hs : s.Plain)
    {t : Text} {data : List (Value × Value)} (hd : Named data)
    (quotable : Quotable (stripComments (stripComments t)))
    (own : named ["extends"] (directives (verbatim (stripComments t))) = [])
    (ht : verbatim (stripComments t) ∈ ts) (now : Rat) (nonce page : Text) :
    ∃ k' : Kit, k.render now nonce (verbatim t) page data =
        (.ok ⟨stripComments (stripComments t), page, [], 0⟩, k') ∧ k'.Kept s l ts := by
  obtain ⟨k', printed, kept⟩ := h.render_enclosed ha hs hd quotable.enclosed quotable.breaks
    quotable.unclosed own ht now nonce page
  rw [quotable.markless.collect []] at printed
  exact ⟨k', printed, kept⟩

/-- What a block can enclose: directives, a loop, output, an include tag, at signs in pairs. -/
def lookalike : Text :=
  " @if(x) a @@else @endif @section('s') \x7b\x7b x \x7d\x7d \x7b% raw %\x7d " ++
    "<include src=\"a\" /> @include('a') \x7b# b #\x7d @@"

theorem render_verbatim_lookalike : Quotable lookalike ∧ stripComments lookalike = lookalike ∧
    named ["extends"] (directives (verbatim lookalike)) = [] ∧
      ∃ k' : Kit, (Kit.fresh {} (.shelf {})).render 0 "5eed" (verbatim lookalike) "page" [] =
        (.ok ⟨lookalike, "page", [], 0⟩, k') := by
  have same : stripComments lookalike = lookalike := by decide
  have twice : stripComments (stripComments lookalike) = lookalike := by rw [same, same]
  have quotable : Quotable lookalike := by decide +kernel
  have own : named ["extends"] (directives (verbatim lookalike)) = [] := by decide
  have fresh := kept_fresh {} (.shelf {}) [verbatim lookalike]
  obtain ⟨k', printed, -⟩ := fresh.render_verbatim (apart_single _ _) plain_default (t := lookalike)
    (nofun : Named []) (twice.symm ▸ quotable) (by rw [same]; exact own)
    (by rw [same]; exact List.mem_singleton_self _) 0 "5eed" "page"
  rw [twice] at printed
  exact ⟨quotable, same, own, k', printed⟩

/-- A comment, which holds nothing that ends a verbatim block. -/
def remark : Text := "\x7b\x7b-- c --\x7d\x7d"

/-- A comment in a verbatim block is not printed. -/
theorem render_verbatim_comment :
    (¬ "@endverbatim".toList <:+: remark ∧ '\x00' ∉ remark ∧ '\r' ∉ remark ∧
      (remark.head?.map isWord).getD false = false) ∧
    ∃ k' : Kit, (Kit.fresh {} (.shelf {})).render 0 "5eed" (verbatim remark) "index.html" [] =
        (.ok ⟨[], "index.html", [], 0⟩, k') ∧ remark ≠ [] := by
  have gone : stripComments remark = [] := by decide
  have twice : stripComments (stripComments remark) = [] := by rw [gone]; rfl
  have fresh := kept_fresh {} (.shelf {}) [verbatim []]
  obtain ⟨k', printed, -⟩ := fresh.render_enclosed (apart_single _ _) plain_default (t := remark)
    (nofun : Named []) (twice.symm ▸ by decide) (twice.symm ▸ by decide) (twice.symm ▸ by decide)
    (by rw [gone]; decide) (by rw [gone]; exact List.mem_singleton_self _) 0 "5eed"
    "index.html"
  rw [twice] at printed
  exact ⟨⟨by decide, by decide, by decide, by decide⟩, k', printed, by decide⟩

end Kit

end Pagewright
