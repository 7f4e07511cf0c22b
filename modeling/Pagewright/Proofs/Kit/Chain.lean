import Pagewright.Kit
import Pagewright.Proofs.Assembly.Chain
import Pagewright.Proofs.Assembly.Marker
import Pagewright.Proofs.Desk.Comment

/-! # Pages that start a chain

A page that is a link is printed as what its chain comes to (`Kit.render_link`): the texts on the
way, and at the end nothing, or one comment with one problem reported for it. -/

namespace Pagewright

open Text Directive Pagewright.Path Assembly

/-! ### Comments without angle brackets inside -/

namespace Text

theorem mem_of_mem_closeMatches {most : Nat} {name n : Text} {names : List Text}
    (h : n ∈ closeMatches most name names) : n ∈ names := by
  unfold closeMatches at h
  obtain ⟨s, hs, rfl⟩ := List.mem_map.mp h
  have hs' := (List.mergeSort_perm _ _).subset (List.mem_of_mem_take hs)
  obtain ⟨m, hm, rfl⟩ := List.mem_map.mp (List.mem_filter.mp hs').1
  have text : (score name m).text = m := by
    unfold score
    simp only
    split <;> rfl
  rw [text]
  exact hm

end Text

namespace Problem

/-- A problem whose wording and hints hold no opening angle bracket. -/
def Unmarked (p : Problem) : Prop := '<' ∉ p.message ∧ ∀ h ∈ p.hints, '<' ∉ h

theorem not_mem_ite {x : Char} {c : Prop} [Decidable c] {t u : Text} (ht : x ∉ t) (hu : x ∉ u) :
    x ∉ if c then t else u := by
  split
  · exact ht
  · exact hu

theorem not_mem_code (p : Problem) : '<' ∉ p.code := fun hm =>
  absurd (p.code_spelled '<' hm) (by decide)

/-- The comment for such a problem opens only once, and in no way that a marker opens. -/
theorem Unmarked.placeholder {p : Problem} (h : p.Unmarked) :
    ∃ u, p.placeholder = "<!-- ".toList ++ u ∧ '<' ∉ u := by
  let hints : Text := if p.hints.isEmpty then [] else " (" ++ join "; " p.hints ++ ")"
  have hhints : '<' ∉ hints := by
    refine not_mem_ite List.not_mem_nil ?_
    simp only [List.mem_append, not_or]
    refine ⟨⟨by decide, fun hm => ?_⟩, by decide⟩
    obtain hs | ⟨t, ht, hm⟩ := mem_join hm
    · exact absurd hs (by decide)
    · exact h.2 t ht hm
  have hline : '<' ∉ p.line := by
    unfold Problem.line
    simp only [List.mem_append, not_or]
    exact ⟨⟨p.not_mem_code, by decide⟩, h.1⟩
  have inside : '<' ∉ replaceAll "--" "- -" (p.line ++ hints) := by
    intro hm
    obtain hm | hm := mem_replaceAll hm
    · exact absurd hm (by decide)
    · exact (List.mem_append.mp hm).elim hline hhints
  refine ⟨"[htmlkit] " ++ replaceAll "--" "- -" (p.line ++ hints) ++ " -->", ?_, ?_⟩
  · have regroup : ∀ a b c d : Text, a ++ b ++ c ++ d = a ++ (b ++ c ++ d) := by
      intro a b c d
      simp only [List.append_assoc]
    exact regroup "<!-- " "[htmlkit] " _ _
  · simp only [List.mem_append, not_or]
    exact ⟨⟨by decide, inside⟩, by decide⟩

end Problem

/-! ### What a chain comes to holds no marker -/

namespace Assembly

theorem ofInt_not_mem (n : Int) : '<' ∉ ofInt n := by
  have digits : ∀ m : Nat, '<' ∉ ofNat m := fun m hm =>
    absurd (isDigit_of_mem_ofNat hm) (by decide)
  cases n with
  | ofNat m => exact digits m
  | negSucc m =>
      intro hm
      obtain e | hm := List.mem_cons.mp hm
      · exact absurd e (by decide)
      · exact digits (m + 1) hm

theorem unmarked_absent {p : Text} {names : List Text} (hp : IsName p)
    (hn : ∀ n ∈ names, IsName n) :
    (Problem.absent p "include" (closeMatches 3 p names)).Unmarked := by
  have lead : '<' ∉ capitalize "include" := by decide
  refine ⟨?_, fun h hm => ?_⟩
  · unfold Problem.message
    simp only [List.mem_append, not_or]
    exact ⟨⟨lead, by decide⟩, hp.not_mem (by decide)⟩
  · obtain ⟨n, hc, rfl⟩ := List.mem_map.mp hm
    simp only [List.mem_append, not_or]
    exact ⟨⟨by decide, (hn n (mem_of_mem_closeMatches hc)).not_mem (by decide)⟩, by decide⟩

theorem unmarked_cycle {chain : List Text} (hc : ∀ p ∈ chain, IsName p) :
    (Problem.cycle chain "include").Unmarked := by
  refine ⟨?_, fun h hm => ?_⟩
  · unfold Problem.message
    simp only [List.mem_append, not_or]
    refine ⟨⟨⟨by decide, by decide⟩, by decide⟩, fun hm => ?_⟩
    obtain hs | ⟨t, ht, hm⟩ := mem_join hm
    · exact absurd hs (by decide)
    · exact (hc t ht).not_mem (by decide) hm
  · rw [List.mem_singleton.mp hm]
    simp only [List.mem_append, not_or]
    exact ⟨⟨by decide, by decide⟩, by decide⟩

theorem unmarked_tooDeep {p : Text} (hp : IsName p) (depth most : Int) :
    (Problem.tooDeep p depth most "include").Unmarked := by
  have lead : '<' ∉ capitalize "include" := by decide
  refine ⟨?_, fun h hm => ?_⟩
  · unfold Problem.message
    simp only [List.mem_append, not_or]
    exact ⟨⟨⟨⟨⟨⟨lead, by decide⟩, ofInt_not_mem _⟩, by decide⟩, ofInt_not_mem _⟩, by decide⟩,
      hp.not_mem (by decide)⟩
  · rw [List.mem_singleton.mp hm]
    decide

section

variable {lib : Library} {links : List (Text × Link)}

/-- A trail that holds no opening angle bracket but that of the comment at its end. -/
def Trail.Plain (t : Trail) : Prop := (∀ x ∈ t.texts, '<' ∉ x) ∧ ∀ p ∈ t.trouble, p.Unmarked

theorem Trail.Plain.single {text : Text} {trouble : Option Problem} (ht : '<' ∉ text)
    (hp : ∀ p ∈ trouble, p.Unmarked) : (Trail.mk [text] trouble).Plain :=
  ⟨fun _ hx => List.mem_singleton.mp hx ▸ ht, hp⟩

/-- Chains of links are plain. -/
theorem plain_follow (h : lib.Offers links) (most : Int) (room : Nat) (entered : List Text)
    (l : Link) (hl : l.Sound) (he : ∀ p ∈ entered, IsName p) :
    (follow lib.names links most room entered l).Plain := by
  have angle : ∀ {l : Link}, l.Sound → '<' ∉ l.text := fun hl => hl.text '<' (by decide)
  fun_induction follow lib.names links most room entered l with
  | case1 room entered l hn => exact .single (angle hl) nofun
  | case2 room entered l p hn hm =>
      refine .single (angle hl) fun q hq => Option.some.inj hq ▸ ?_
      exact unmarked_absent (hl.next p hn) h.names
  | case3 room entered l p hn m hm hc =>
      refine .single (angle hl) fun q hq => Option.some.inj hq ▸ unmarked_cycle fun r hr => ?_
      exact (List.mem_append.mp hr).elim (he r) fun hr => List.mem_singleton.mp hr ▸ hl.next p hn
  | case4 entered l p hn m hm hc =>
      refine .single (angle hl) fun q hq => Option.some.inj hq ▸ ?_
      exact unmarked_tooDeep (hl.next p hn) _ most
  | case5 entered l p hn m hm hc room ih =>
      obtain ⟨texts, trouble⟩ := ih (h.sound_of_lookup hm) fun r hr =>
        (List.mem_append.mp hr).elim (he r) fun hr => List.mem_singleton.mp hr ▸ hl.next p hn
      exact ⟨List.forall_mem_cons.mpr ⟨angle hl, texts⟩, trouble⟩

end

/-- What a plain trail shows holds no marker. -/
theorem Trail.Plain.unmarked {t : Trail} (h : t.Plain) : ¬ markLead <:+: t.shown := by
  have texts : '<' ∉ t.texts.flatten := fun hm => by
    obtain ⟨x, hx, hm⟩ := List.mem_flatten.mp hm
    exact h.1 x hx hm
  intro hi
  -- Wherever the marker stands, its first character is the one that opens the comment.
  obtain ⟨v, ⟨r, rfl⟩, hs⟩ := List.infix_iff_prefix_suffix.mp hi
  have behind := suffix_of_not_mem (x := '<')
    (v := '!' :: '-' :: '-' :: 'h' :: ("k:" ++ r : Text)) texts hs
  cases ht : t.trouble with
  | none =>
      rw [ht] at behind
      exact absurd behind (by simp)
  | some p =>
      obtain ⟨u, hu, clear⟩ := (h.2 p ht).placeholder
      have opening : ("<!-- " ++ u : Text) = '<' :: '!' :: '-' :: '-' :: ' ' :: u := rfl
      rw [ht, Option.map_some, Option.getD_some, hu, opening] at behind
      obtain e | behind := List.suffix_cons_iff.mp behind
      · simp at e
      · have hm := behind.subset List.mem_cons_self
        simp [clear] at hm

end Assembly

/-! ### Pages -/

namespace Assembly

variable {site : Site}

theorem flattenWithin_link {l : Link} (hl : l.Sound) (room : Nat) (page : Text)
    (inherited : List (Text × Text)) :
    flattenWithin site room l.shown page inherited = pure l.shown := by
  cases room <;> rw [flattenWithin, hop, extends_link hl] <;> rfl

/-- A link has no layouts. -/
theorem flatten_link {l : Link} (hl : l.Sound) (page : Text) (d : Desk) :
    (flatten site l.shown page).outcome d = (.ok l.shown, d) := by
  have comments : Lowering.stripComments l.shown = l.shown :=
    Lowering.stripComments_eq_self (not_infix_of_not_mem (not_mem_link hl (by decide)))
  rw [flatten, Work.outcome_bind_ok (Work.outcome_session d), comments, flattenWithin_link hl]
  rfl

end Assembly

namespace Kit

/-- A kit that prints chains of links: it has the usual delimiters and a limit, its library holds
the links, its press and memo can be trusted with the given texts, and no two of the texts have one
fingerprint. -/
structure Prints (k : Kit) (links : List (Text × Link)) (ts : List Text) : Prop where
  delimiters : k.settings.delimiters = {}
  depth : 0 ≤ k.settings.maxDepth
  offers : k.library.Offers links
  texts : ∀ e ∈ links, e.2.shown ∈ ts
  apart : Lowering.Apart {} ts
  data : Template.Named k.settings.data
  press : k.press.Sound
  memo : Lowering.Recalls {} ts k.memo

variable {k : Kit} {links : List (Text × Link)} {ts : List Text}

/-- A kit that was just made prints chains, if its memo is empty. -/
theorem prints_make {s : Settings} {lib : Library} {m : Memo} (hm : m.entries = [])
    (hds : s.delimiters = {}) (depth : 0 ≤ s.maxDepth) (offers : lib.Offers links)
    (texts : ∀ e ∈ links, e.2.shown ∈ ts) (apart : Lowering.Apart {} ts)
    (data : Template.Named s.data) : (Kit.make s lib m).Prints links ts where
  delimiters := hds
  depth := depth
  offers := offers
  texts := texts
  apart := apart
  data := data
  press := ⟨⟨hds, rfl⟩, nofun⟩
  memo := Lowering.recalls_of_entries_nil hm

theorem Prints.setting (h : k.Prints links ts) : Setting k.site links ts where
  delimiters := h.delimiters
  offers := h.offers
  texts := h.texts
  apart := h.apart
  data := h.data

/-- A page without layouts is what it shows, as it is collected. -/
theorem makePage_shows {t page v : Text} {data : List (Value × Value)} {found : List Problem}
    {now : Rat} {nonce : Text} (depth : 0 ≤ k.settings.maxDepth)
    (flat : (flatten k.site t page).outcome (k.desk now nonce) = (.ok t, k.desk now nonce))
    (hw : Shows ts (resolveWithin k.site (k.settings.maxDepth.toNat + 1) t
      (layered [k.site.data, data]) page) (layered [k.site.data, data]) page (k.desk now nonce) v
        found) :
    ∃ d s, (makePage k.site t page data).outcome (k.desk now nonce) = (.ok (collect v []).1, d) ∧
      Ready ts d ∧ (k.desk now nonce).session.Extended found s ∧
      d.session = { s with onceSeen := (collect v []).2 } := by
  obtain ⟨resolved, d1, printed, press, ho, ready, ext, hprint, sound, hsplice⟩ := hw
  have expanded : (expandPage k.site t page (layered [k.site.data, data])).outcome
      (k.desk now nonce) = (.ok resolved, d1) := by
    have room : (k.settings.maxDepth + 1 - ((0 : Nat) : Int)).toNat =
        k.settings.maxDepth.toNat + 1 := by omega
    have start : ((k.desk now nonce).session.maxDepth + 1 -
        (k.desk now nonce).session.includeStack.length).toNat = k.settings.maxDepth.toNat + 1 := room
    rw [expandPage, Work.outcome_orElse, resolve, Work.outcome_bind_ok (Work.outcome_session _),
      start, ho]
  let d2 : Desk := { d1 with press := press }
  have print : (printPage t resolved page (layered [k.site.data, data])).outcome d1 =
      (.ok printed, d2) := by
    rw [printPage, Work.outcome_orElse, Work.outcome_print, hprint]
    rfl
  have splice : (Work.splice printed).outcome d2 = (.ok v, d2) := by
    rw [Work.outcome_splice, show d2.session.splice printed = .ok v from hsplice]
    rfl
  obtain ⟨more, entry, grown⟩ := ext
  have unseen : d2.session.onceSeen = [] := congrArg Session.onceSeen grown
  refine ⟨{ d2 with session := { d1.session with onceSeen := (collect v []).2 } }, d1.session, ?_,
    ⟨sound, ready.memo, ready.nonce⟩, ⟨more, entry, grown⟩, rfl⟩
  unfold makePage
  simp only
  rw [Work.outcome_bind_ok flat, Work.outcome_bind_ok expanded, Work.outcome_bind_ok print,
    Work.outcome_bind_ok splice, Work.outcome_bind_ok (Work.outcome_session _), unseen]
  rfl

/-- What the chain of a page comes to. -/
def trail (k : Kit) (links : List (Text × Link)) (page : Text) (l : Link) : Trail :=
  follow k.library.names links k.settings.maxDepth k.settings.maxDepth.toNat [page] l

/-- The page of a link is made of its trail. -/
theorem makePage_link (h : k.Prints links ts) {l : Link} (hl : l.Sound) (ht : l.shown ∈ ts)
    {page : Text} (hp : IsName page) {data : List (Value × Value)} (hd : Template.Named data)
    (now : Rat) {nonce : Text} (hn : ∀ c ∈ nonce, c.isAlphanum = true) :
    ∃ d, (makePage k.site l.shown page data).outcome (k.desk now nonce) =
        (.ok (k.trail links page l).shown, d) ∧ Ready ts d ∧
      (k.desk now nonce).session.Extended (k.trail links page l).trouble.toList d.session := by
  have named : Template.Named (layered [k.site.data, data]) := by
    refine named_layered _ fun layer hm => ?_
    simp only [List.mem_cons, List.not_mem_nil, or_false] at hm
    obtain rfl | rfl := hm
    · exact h.data
    · exact hd
  have ready : Ready ts (k.desk now nonce) := ⟨h.press, h.memo, hn⟩
  have depth : ((0 : Nat) : Int) + k.settings.maxDepth.toNat = k.settings.maxDepth := by
    have := h.depth
    omega
  have resolved := resolves_link h.setting k.settings.maxDepth.toNat l page _ (k.desk now nonce) hl
    ht named ready List.not_mem_nil depth
  have shown : Shows ts (resolveWithin k.site (k.settings.maxDepth.toNat + 1) l.shown
      (layered [k.site.data, data]) page) (layered [k.site.data, data]) page (k.desk now nonce)
        (k.trail links page l).shown (k.trail links page l).trouble.toList := by
    rw [trail, shown_follow]
    exact Delivers.shows resolved hl named page
  obtain ⟨d, s, made, ready', ext, left⟩ := makePage_shows h.depth (flatten_link hl page _) shown
  have plain : (k.trail links page l).Plain :=
    plain_follow h.offers _ _ _ l hl fun p hm => List.mem_singleton.mp hm ▸ hp
  have kept : collect (k.trail links page l).shown [] = ((k.trail links page l).shown, []) :=
    collect_eq_self plain.unmarked []
  rw [kept] at made left
  obtain ⟨more, entry, rfl⟩ := ext
  exact ⟨d, made, ready', more, entry, left⟩

/-- **A page that starts a chain is printed as what the chain comes to**, and the problem at its
end, if there is one, is the only thing that is noticed.  The kit that is left prints chains in its
turn. -/
theorem render_link (h : k.Prints links ts) {l : Link} (hl : l.Sound) (ht : l.shown ∈ ts)
    {page : Text} (hp : IsName page) {data : List (Value × Value)} (hd : Template.Named data)
    (now : Rat) {nonce : Text} (hn : ∀ c ∈ nonce, c.isAlphanum = true) :
    ∃ k' : Kit, k.render now nonce l.shown page data =
        (.ok ⟨(k.trail links page l).shown, page,
          (k.trail links page l).trouble.toList.map .problem, 0⟩, k') ∧ k'.Prints links ts := by
  obtain ⟨d, made, ready, more, entry, ext⟩ := makePage_link h hl ht hp hd now hn
  refine ⟨{ k with press := d.press, memo := d.memo }, ?_,
    ⟨h.delimiters, h.depth, h.offers, h.texts, h.apart, h.data, ready.press, ready.memo⟩⟩
  have run : ((makePage k.site l.shown page data).run).run (k.desk now nonce) =
      (.ok (k.trail links page l).shown, d) := made
  unfold render
  rw [run]
  simp only [ext]
  rfl

/-- Two links that lead to each other. -/
def circle : List (Text × Link) :=
  [("a", ⟨"one, ", some (.single "b" (by decide) (by decide))⟩),
    ("b", ⟨"two, ", some (.single "a" (by decide) (by decide))⟩)]

theorem sound_circle : ∀ e ∈ circle, IsName e.1 ∧ e.2.Sound := by
  intro e he
  simp only [circle, List.mem_cons, List.not_mem_nil, or_false] at he
  obtain rfl | rfl := he
  · refine ⟨by decide, forall_mem_text (by decide), fun p hp => ?_⟩
    obtain rfl := Option.some.inj hp
    decide
  · refine ⟨by decide, forall_mem_text (by decide), fun p hp => ?_⟩
    obtain rfl := Option.some.inj hp
    decide

theorem apart_circle : Lowering.Apart {} ["one, @include('b')", "two, @include('a')"] :=
  Lowering.apart_pair (by decide +kernel)

theorem render_circle : ∃ k : Kit,
    (Kit.make {} (.shelf (.ofLinks circle)) {}).render 0 "5eed" "one, @include('b')" "a" [] =
        (.ok ⟨"one, two, " ++ (Problem.cycle ["a", "b", "a"] "include").placeholder, "a",
          [.problem (.cycle ["a", "b", "a"] "include")], 0⟩, k) ∧
      k.Prints circle ["one, @include('b')", "two, @include('a')"] := by
  have prints : (Kit.make {} (.shelf (.ofLinks circle)) {}).Prints circle
      ["one, @include('b')", "two, @include('a')"] :=
    prints_make rfl rfl (by decide) (Shelf.offers sound_circle) (by decide) apart_circle nofun
  exact render_link prints (sound_circle _ List.mem_cons_self).2 List.mem_cons_self
    (by decide) (fun _ h => absurd h List.not_mem_nil) 0 (forall_mem_text (by decide))

end Kit

end Pagewright
