import Pagewright.Proofs.Assembly.Expansion
import Pagewright.Proofs.Assembly.Layered
import Pagewright.Proofs.Assembly.LinkTag
import Pagewright.Proofs.Desk.Run
import Pagewright.Proofs.Desk.Stash
import Pagewright.Proofs.Lowering.SharedMemo
import Pagewright.Proofs.Template.Press

/-! # Chains of includes

Links whose includes lead from one to the next form a chain, which may end, break off, or come back
to a link on it.  `follow` says what a chain comes to; resolving a link gives exactly that
(`resolves_link`), whatever the limit and however the chain ends.  The induction is on the
number of includes that may still be entered.

Main definitions: `Trail` (the texts on the way and the problem at the end), `follow`,
`Library.Offers` (a library whose templates are links), `Ready`, `Delivers`, `Shows`. -/

namespace Pagewright

open Text Directive Pagewright.Path

/-! ### What a chain comes to -/

namespace Assembly

/-- What a chain comes to: the texts that are met, and the problem at its end if there is one. -/
structure Trail where
  texts : List Text
  trouble : Option Problem

namespace Trail

/-- The texts in order, and a comment in the place of what failed. -/
def shown (t : Trail) : Text := t.texts.flatten ++ (t.trouble.map Problem.placeholder).getD []

/-- What comes behind the first text. -/
def rest (t : Trail) : Text := t.texts.tail.flatten ++ (t.trouble.map Problem.placeholder).getD []

/-- A trail with a text in front. -/
def behind (text : Text) (t : Trail) : Trail := ⟨text :: t.texts, t.trouble⟩

end Trail

/-- The chain that starts with a link.  `entered` are the paths on the way to the link, the page
first and the link last; `room` more of at most `most` includes may be entered.  A target that is
missing is noticed first, then one that is on the way, then one that is too deep. -/
def follow (names : List Text) (links : List (Text × Link)) (most : Int) :
    Nat → List Text → Link → Trail
  | room, entered, l =>
    match l.next with
    | none => ⟨[l.text], none⟩
    | some p =>
      match links.lookup p.value with
      | none => ⟨[l.text], some (.absent p.value "include" (closeMatches 3 p.value names))⟩
      | some m =>
        if entered.contains p.value then
          ⟨[l.text], some (.cycle (entered ++ [p.value]) "include")⟩
        else
          match room with
          | 0 => ⟨[l.text], some (.tooDeep p.value entered.length most "include")⟩
          | room + 1 => (follow names links most room (entered ++ [p.value]) m).behind l.text

/-- A chain starts with the text of its first link. -/
theorem shown_follow (names : List Text) (links : List (Text × Link)) (most : Int) (room : Nat)
    (entered : List Text) (l : Link) :
    (follow names links most room entered l).shown =
      l.text ++ (follow names links most room entered l).rest := by
  obtain ⟨texts, e⟩ : ∃ texts, (follow names links most room entered l).texts = l.text :: texts := by
    unfold follow
    split
    · exact ⟨_, rfl⟩
    · split
      · exact ⟨_, rfl⟩
      · split
        · exact ⟨_, rfl⟩
        · split <;> exact ⟨_, rfl⟩
  rw [Trail.shown, Trail.rest, e, List.flatten_cons, List.tail_cons, List.append_assoc]

end Assembly

open Assembly

/-! ### Libraries of links -/

/-- A name is where it says, if the root of the library can be written. -/
theorem Library.locate_name {l : Library} (root : ∀ f, l = .folder f → '\x00' ∉ f.root.shown)
    {p : Text} (hp : IsName p) : l.locate "include" p = .ok p := by
  cases l with
  | shelf s =>
      unfold Library.locate
      rw [Shelf.locate_name "include" hp]
      rfl
  | folder f => exact Folder.locate_name "include" (root f rfl) hp

/-- A library whose templates are links under names. -/
structure Library.Offers (l : Library) (links : List (Text × Link)) : Prop where
  /-- The root of a folder can be written. -/
  root : ∀ f, l = .folder f → '\x00' ∉ f.root.shown
  text : ∀ p, IsName p → l.text? p = (links.lookup p).map Link.shown
  names : ∀ n ∈ l.names, IsName n
  sound : ∀ e ∈ links, e.2.Sound

namespace Library.Offers

variable {l : Library} {links : List (Text × Link)} (h : l.Offers links)

include h

theorem locate {p : Text} (hp : IsName p) : l.locate "include" p = .ok p :=
  Library.locate_name h.root hp

theorem sound_of_lookup {p : Text} {m : Link} (hm : links.lookup p = some m) : m.Sound := by
  obtain ⟨e, he, rfl⟩ : ∃ e ∈ links, e.2 = m := by
    obtain ⟨before, behind, rfl, -⟩ := List.lookup_eq_some_iff.mp hm
    exact ⟨(p, m), by simp, rfl⟩
  exact h.sound e he

end Library.Offers

/-- The shelf of links under their names. -/
def Shelf.ofLinks (links : List (Text × Link)) : Shelf := ⟨links.map fun (p, l) => (p, l.shown)⟩

theorem Shelf.text?_ofLinks (p : Text) : ∀ links : List (Text × Link),
    (Shelf.ofLinks links).text? p = (links.lookup p).map Link.shown
  | [] => rfl
  | (q, l) :: links => by
      have ih := Shelf.text?_ofLinks p links
      unfold Shelf.text? Shelf.ofLinks at ih ⊢
      rw [List.map_cons, List.lookup_cons, List.lookup_cons]
      split
      · rfl
      · exact ih

/-- A shelf of links offers them. -/
theorem Shelf.offers {links : List (Text × Link)} (h : ∀ e ∈ links, IsName e.1 ∧ e.2.Sound) :
    (Library.shelf (.ofLinks links)).Offers links where
  root := nofun
  text p _ := Shelf.text?_ofLinks p links
  names n hn := by
    have hm := (List.mergeSort_perm _ _).subset hn
    obtain ⟨t, ht, rfl⟩ := List.mem_map.mp hm
    obtain ⟨e, he, rfl⟩ := List.mem_map.mp ht
    exact (h e he).1
  sound e he := (h e he).2

namespace Assembly

section

variable {site : Site} {links : List (Text × Link)}

/-- A template without places for slots that is there is what its tag asks for. -/
theorem partialFor_held (root : ∀ f, site.library = .folder f → '\x00' ∉ f.root.shown)
    (data : List (Value × Value)) (page : Text) (pos : Nat) {p t : Text} (hp : IsName p)
    (ht : site.library.text? p = some t) (slots : fillSlots t [] = t) (d : Desk) :
    (partialFor site data page (tagAt pos p)).outcome d =
      (.ok (some ⟨p, t, layered [site.data, data, []]⟩), d) := by
  have held : site.library.holds p = true := by rw [Library.holds, ht]; rfl
  have found : locate site.library p [] false = .ok (some p) := by
    simp only [locate, firstHeld?, Library.locate_name root hp, bind, Except.bind, held, if_true]
    rfl
  have read : site.library.read p "include" = .ok t := by rw [Library.read, ht]
  rw [partialFor_tag site data page pos hp, found]
  refine (@Work.outcome_bind_ok _ _ _ _ d d (some p) rfl).trans ?_
  simp only [read]
  refine (@Work.outcome_bind_ok _ _ _ _ d d t rfl).trans ?_
  rw [slots]
  rfl

/-- A link that is there is what its tag asks for. -/
theorem partialFor_found (h : site.library.Offers links) (data : List (Value × Value)) (page : Text)
    (pos : Nat) {p : Text} (hp : IsName p) {m : Link} (hm : links.lookup p = some m) (d : Desk) :
    (partialFor site data page (tagAt pos p)).outcome d =
      (.ok (some ⟨p, m.shown, layered [site.data, data, []]⟩), d) :=
  partialFor_held h.root data page pos hp (by rw [h.text p hp, hm]; rfl)
    (fillSlots_link (h.sound_of_lookup hm) []) d

/-- A link that is missing stops the expansion. -/
theorem partialFor_missing (h : site.library.Offers links) (data : List (Value × Value))
    (page : Text) (pos : Nat) {p : Text} (hp : IsName p) (hm : links.lookup p = none) (d : Desk) :
    (partialFor site data page (tagAt pos p)).outcome d =
      (.error (.problem (site.library.absence p "include")), d) := by
  have text : site.library.text? p = none := by rw [h.text p hp, hm]; rfl
  have held : site.library.holds p = false := by rw [Library.holds, text]; rfl
  have found : locate site.library p [] false =
      .error (.problem (site.library.absence p "include")) := by
    simp only [locate, firstHeld?, h.locate hp, bind, Except.bind, held]
    rfl
  rw [partialFor_tag site data page pos hp, found]
  exact Work.outcome_bind_error rfl

end

end Assembly

/-! ### Desks at which links are resolved -/

/-- A desk whose press and memo can be trusted with the given texts, and whose nonce is made of
letters and digits. -/
structure Ready (ts : List Text) (d : Desk) : Prop where
  press : d.press.Sound
  memo : Lowering.Recalls {} ts d.memo
  nonce : ∀ c ∈ d.session.nonce, c.isAlphanum = true

namespace Ready

variable {ts : List Text} {d : Desk}

/-- Only letters and digits count in the nonce. -/
theorem not_mem_nonce (h : Ready ts d) {c : Char} (hc : c.isAlphanum = false) :
    c ∉ d.session.nonce := fun hm => Bool.false_ne_true (hc.symm.trans (h.nonce c hm))

/-- A change to the session that keeps the nonce leaves the desk ready. -/
theorem of_session (h : Ready ts d) {s : Session} (hs : s.nonce = d.session.nonce) :
    Ready ts { d with session := s } where
  press := h.press
  memo := h.memo
  nonce := by rw [hs]; exact h.nonce

/-- Plain text and a token behind it are data to the engine. -/
theorem isData (h : Ready ts d) {l : Link} (hl : l.Sound) {token output : Text}
    (ht : d.session.Stands token output) : Template.IsData (l.text ++ token) := by
  have none : ∀ c ∈ "\x7b\r".toList, c ∈ "@\x7b<\x00\r".toList ∧ c.isAlphanum = false ∧
      c.isDigit = false ∧ c ∉ "\x00hk:out:".toList := forall_mem_text (by decide)
  have absent : ∀ c ∈ "\x7b\r".toList, c ∉ l.text ++ token := by
    intro c hc
    obtain ⟨h1, h2, h3, h4⟩ := none c hc
    rw [List.mem_append, not_or]
    exact ⟨hl.text c h1, ht.not_mem (h.not_mem_nonce h2) h3 h4⟩
  exact ⟨absent _ (by decide), absent _ (by decide)⟩

end Ready

/-- Work that answers a text followed by what stands for some output, that reports `found` and adds
nothing else to the session, and that leaves the desk ready. -/
def Delivers (ts : List Text) (w : Work Text) (d : Desk) (text output : Text)
    (found : List Problem) : Prop :=
  ∃ token d', w.outcome d = (.ok (text ++ token), d') ∧ d'.session.Stands token output ∧
    Ready ts d' ∧ d.session.Extended found d'.session

/-- Work that answers a page which prints a text, up to the tokens in it, that reports `found` and
adds nothing else to the session, and that leaves the desk ready. -/
def Shows (ts : List Text) (w : Work Text) (data : List (Value × Value)) (path : Text) (d : Desk)
    (v : Text) (found : List Problem) : Prop :=
  ∃ resolved d' printed press, w.outcome d = (.ok resolved, d') ∧ Ready ts d' ∧
    d.session.Extended found d'.session ∧
    d'.press.print resolved data (some path) = (.ok printed, press) ∧ press.Sound ∧
    d'.session.splice printed = .ok v

namespace Assembly

section

variable {ts : List Text} {d : Desk}

/-- A comment is set aside in the place of what failed. -/
theorem noted_delivers (h : Ready ts d) (page : Text) (p : Problem) :
    Delivers ts (Work.noted page p) d [] (p.metAt page).placeholder [p.metAt page] := by
  let s := d.session.report (p.metAt page)
  have ext : d.session.Extended ([p.metAt page] ++ []) (s.stash (p.metAt page).placeholder).2 :=
    (Session.Extended.report _ _).trans (Session.Extended.stash s _)
  refine ⟨_, _, ?_, Session.stands_stash s _, h.of_session ext.nonce, ext⟩
  rw [Work.outcome_noted, Work.outcome_stash]
  rfl

/-- A tag whose expansion stops with a problem leaves a comment. -/
theorem expandTag_refused {site : Site} (next : Text → List (Value × Value) → Text → Work Text)
    {data : List (Value × Value)} {page : Text} {tag : IncludeTag} {p : Problem} (h : Ready ts d)
    (hr : (renderTag site next data page tag).outcome d = (.error (.problem p), d)) :
    Delivers ts (expandTag site next data page tag) d [] (p.metAt page).placeholder
      [p.metAt page] := by
  obtain ⟨token, d', ho, rest⟩ := noted_delivers h page p
  refine ⟨token, d', ?_, rest⟩
  rw [expandTag, Work.outcome_orElse, hr]
  exact ho

/-- Work that delivers a link and some output shows both. -/
theorem Delivers.shows {w : Work Text} {data : List (Value × Value)} {l : Link} {output : Text}
    {found : List Problem} (hw : Delivers ts w d l.text output found) (hl : l.Sound)
    (hd : Template.Named data) (path : Text) : Shows ts w data path d (l.text ++ output) found := by
  obtain ⟨token, d', ho, stands, ready, ext⟩ := hw
  obtain ⟨press, printed, sound⟩ := ready.press.print_data (ready.isData hl stands) hd (some path)
  have none : '\x00' ∉ l.text := hl.text _ (by decide)
  exact ⟨l.text ++ token, d', l.text ++ token, press, ho, ready, ext, printed, sound,
    Session.splice_stands none stands⟩

/-- A tag stands for what its partial shows. -/
theorem Shows.expandTag {site : Site} {next : Text → List (Value × Value) → Text → Work Text}
    {data : List (Value × Value)} {page v : Text} {tag : IncludeTag} {q : Partial}
    {found : List Problem} (hp : (partialFor site data page tag).outcome d = (.ok (some q), d))
    (hn : Shows ts (next q.text q.data q.path) q.data q.path d v found) :
    Delivers ts (expandTag site next data page tag) d [] v found := by
  obtain ⟨resolved, d1, printed, press, ho, ready, ext, hprint, sound, hsplice⟩ := hn
  let d2 : Desk := { d1 with press := press }
  have print : (Work.print resolved q.data q.path).outcome d1 = (.ok printed, d2) := by
    rw [Work.outcome_print, hprint]
    rfl
  have splice : (Work.splice printed).outcome d2 = (.ok v, d2) := by
    rw [Work.outcome_splice, show d2.session.splice printed = .ok v from hsplice]
    rfl
  have rendered : (renderTag site next data page tag).outcome d =
      (.ok (d1.session.stash v).1, { d2 with session := (d1.session.stash v).2 }) := by
    rw [renderTag, Work.outcome_bind_ok hp]
    simp only
    rw [Work.outcome_bind_ok ho, Work.outcome_bind_ok print, Work.outcome_bind_ok splice,
      Work.outcome_stash]
  have grown := Session.Extended.stash d1.session v
  have ext' := ext.trans grown
  rw [List.append_nil] at ext'
  refine ⟨(d1.session.stash v).1, { d2 with session := (d1.session.stash v).2 }, ?_,
    Session.stands_stash d1.session v, ⟨sound, ready.memo, ?_⟩, ext'⟩
  · rw [Assembly.expandTag, Work.outcome_orElse, rendered]
    rfl
  · rw [grown.nonce]
    exact ready.nonce

/-! ### One level -/

/-- A page is resolved by expanding its tags one after the other. -/
theorem resolveTags_outcome {site : Site}
    {next : Text → List (Value × Value) → Text → Work Text} {t lowered page : Text}
    {data : List (Value × Value)} {depth : Int} {s : Session} {d1 d2 : Desk} {outputs : List Text}
    (he : d.session.enter? .inclusion page = .ok (depth, s))
    (hl : (Work.lower site.delimiters t).outcome { d with session := s } = (.ok lowered, d1))
    (hx : ((includeTags lowered).mapM (expandTag site next data page)).outcome d1 =
      (.ok outputs, d2)) :
    ∃ entry, (resolveTags site next t data page).outcome d = (.ok (replaceTags lowered outputs),
      { d2 with session := { d2.session with entryOutputs := entry }.leave .inclusion }) := by
  rw [resolveTags, Work.outcome_within_ok he, Work.outcome_bind_ok hl, Work.outcome_bind_ok hx]
  by_cases h : depth = 0
  · rw [if_pos h]
    exact ⟨outputs, rfl⟩
  · rw [if_neg h]
    exact ⟨d2.session.entryOutputs, rfl⟩

/-- A page is resolved to its text with what its tags are expanded to in their places. -/
theorem resolveTags_delivers {site : Site}
    {next : Text → List (Value × Value) → Text → Work Text} {t lowered page text token output : Text}
    {data : List (Value × Value)} {depth : Int} {s : Session} {d1 d2 : Desk} {outputs : List Text}
    {found : List Problem} (he : d.session.enter? .inclusion page = .ok (depth, s))
    (hl : (Work.lower site.delimiters t).outcome { d with session := s } = (.ok lowered, d1))
    (hx : ((includeTags lowered).mapM (expandTag site next data page)).outcome d1 =
      (.ok outputs, d2))
    (hr : replaceTags lowered outputs = text ++ token) (stands : d2.session.Stands token output)
    (ready : Ready ts d2) (ext : s.Extended found d2.session) :
    Delivers ts (resolveTags site next t data page) d text output found := by
  obtain ⟨entry, resolved⟩ := resolveTags_outcome he hl hx
  have ext' := (ext.trans (Session.Extended.entry d2.session entry)).leave he
  rw [List.append_nil] at ext'
  rw [hr] at resolved
  exact ⟨token, _, resolved, stands.mono rfl List.prefix_rfl, ready.of_session rfl, ext'⟩

/-- Lowering a link gives it with its tag, and the desk stays ready. -/
theorem lower_link (h : Ready ts d) (ha : Lowering.Apart {} ts) {l : Link} (hl : l.Sound)
    (ht : l.shown ∈ ts) :
    ∃ m, (Work.lower {} l.shown).outcome d = (.ok l.lowered, { d with memo := m }) ∧
      Ready ts { d with memo := m } := by
  obtain ⟨m, hm, recalls⟩ := h.memo.transformKept ha d.now ht
  refine ⟨m, ?_, h.press, recalls, h.nonce⟩
  rw [Work.outcome_lower, hm, transform_link hl]
  rfl

/-- **A link is resolved** to its text and what its tag is expanded to. -/
theorem resolveTags_link {site : Site} {next : Text → List (Value × Value) → Text → Work Text}
    {data : List (Value × Value)} {page : Text} {depth : Int} {s : Session} {l : Link}
    {output : Text} {found : List Problem} (hds : site.delimiters = {}) (h : Ready ts d)
    (ha : Lowering.Apart {} ts) (hl : l.Sound) (ht : l.shown ∈ ts)
    (he : d.session.enter? .inclusion page = .ok (depth, s))
    (hnone : l.next = none → output = [] ∧ found = [])
    (hsome : ∀ p, l.next = some p → ∀ d' : Desk, Ready ts d' → d'.session = s →
      Delivers ts (expandTag site next data page (tagAt l.text.length p.value)) d' [] output
        found) :
    Delivers ts (resolveTags site next l.shown data page) d l.text output found := by
  have nonce : s.nonce = d.session.nonce := by
    obtain ⟨-, rfl⟩ := Session.enter?_ok he
    rfl
  obtain ⟨m, lowered, ready⟩ := lower_link (h.of_session nonce) ha hl ht
  -- The tags are expanded one after the other, and there is at most one.
  obtain ⟨outputs, token, d', expanded, length, flat, stands, ready', ext⟩ :
      ∃ (outputs : List Text) (token : Text) (d' : Desk),
        ((includeTags l.lowered).mapM (expandTag site next data page)).outcome
            { d with session := s, memo := m } = (.ok outputs, d') ∧
          outputs.length = l.next.toList.length ∧ outputs.flatten = token ∧
          d'.session.Stands token output ∧ Ready ts d' ∧ s.Extended found d'.session := by
    rw [includeTags_link hl]
    cases hn : l.next with
    | none =>
        obtain ⟨rfl, rfl⟩ := hnone hn
        exact ⟨[], [], _, rfl, rfl, rfl, Or.inl ⟨rfl, rfl⟩, ready, Session.Extended.refl s⟩
    | some p =>
        obtain ⟨token, d', ho, hs, hr, ext⟩ := hsome p hn _ ready rfl
        refine ⟨[token], token, d', ?_, rfl, by simp, hs, hr, ext⟩
        simp only [Option.map_some, Option.toList_some, List.mapM_cons, List.mapM_nil]
        exact (Work.outcome_bind_ok ho).trans rfl
  rw [← hds] at lowered
  refine resolveTags_delivers he lowered expanded ?_ stands ready' ext
  rw [replaceTags_link hl length, flat]

end

/-! ### All levels -/

/-- What resolving links relies on: the usual delimiters, a library of links, texts under
fingerprints of their own, and data under names. -/
structure Setting (site : Site) (links : List (Text × Link)) (ts : List Text) : Prop where
  delimiters : site.delimiters = {}
  offers : site.library.Offers links
  texts : ∀ e ∈ links, e.2.shown ∈ ts
  apart : Lowering.Apart {} ts
  data : Template.Named site.data

section

variable {site : Site} {links : List (Text × Link)} {ts : List Text}

theorem Setting.shown_mem (set : Setting site links ts) {p : Text} {m : Link}
    (hm : links.lookup p = some m) : m.shown ∈ ts := by
  obtain ⟨before, behind, rfl, -⟩ := List.lookup_eq_some_iff.mp hm
  exact set.texts (p, m) (by simp)

/-- A tag whose partial may not be entered leaves a comment. -/
theorem expandTag_unentered {d : Desk} {data : List (Value × Value)} {page : Text}
    {tag : IncludeTag} {q : Partial} {p : Problem} (room : Nat) (h : Ready ts d)
    (hq : (partialFor site data page tag).outcome d = (.ok (some q), d))
    (he : d.session.enter? .inclusion q.path = .error p) (hp : p.metAt page = p) :
    Delivers ts (expandTag site (resolveWithin site room) data page tag) d [] p.placeholder
      [p] := by
  rw [← hp]
  refine expandTag_refused _ h ?_
  rw [renderTag, Work.outcome_bind_ok hq]
  exact Work.outcome_bind_error (resolveWithin_refused site room he)

/-- With room for `room` more includes, a link is resolved to what its chain comes to. -/
def Resolves (site : Site) (links : List (Text × Link)) (ts : List Text) (room : Nat) : Prop :=
  ∀ (l : Link) (page : Text) (data : List (Value × Value)) (d : Desk),
    l.Sound → l.shown ∈ ts → Template.Named data → Ready ts d →
    page ∉ d.session.includeStack →
    (d.session.includeStack.length : Int) + room = d.session.maxDepth →
    Delivers ts (resolveWithin site (room + 1) l.shown data page) d l.text
      (follow site.library.names links d.session.maxDepth room
        (d.session.includeStack ++ [page]) l).rest
      (follow site.library.names links d.session.maxDepth room
        (d.session.includeStack ++ [page]) l).trouble.toList

/-- The tag of a link is expanded to what the chain comes to behind the link: a comment, or what the
next link is resolved to. -/
theorem expandTag_link (set : Setting site links ts) {room : Nat}
    (next : ∀ k, room = k + 1 → Resolves site links ts k) {l : Link} {p : Literal} (hl : l.Sound)
    (hp : l.next = some p) (page : Text) {data : List (Value × Value)} (hd : Template.Named data)
    {d : Desk} (h : Ready ts d)
    (hs : (d.session.includeStack.length : Int) + room = d.session.maxDepth + 1) :
    Delivers ts (expandTag site (resolveWithin site room) data page (tagAt l.text.length p.value)) d
      [] (follow site.library.names links d.session.maxDepth room d.session.includeStack l).rest
      (follow site.library.names links d.session.maxDepth room
        d.session.includeStack l).trouble.toList := by
  have name : IsName p.value := hl.next p hp
  unfold follow
  simp only [hp]
  cases hm : links.lookup p.value with
  | none =>
      have missing := partialFor_missing set.offers data page l.text.length name hm d
      have refused := expandTag_refused (resolveWithin site room) h
        (Work.outcome_bind_error missing)
      have kept : (site.library.absence p.value "include").metAt page =
          .absent p.value "include" (closeMatches 3 p.value site.library.names) := by
        unfold Library.absence
        rfl
      rw [kept] at refused
      exact refused
  | some m =>
      have found := partialFor_found set.offers data page l.text.length name hm d
      simp only
      by_cases hc : d.session.includeStack.contains p.value = true
      · have cycle : d.session.enter? .inclusion p.value =
            .error (.cycle (d.session.includeStack ++ [p.value]) "include") := by
          unfold Session.enter?
          exact if_pos hc
        rw [if_pos hc]
        exact expandTag_unentered room h found cycle rfl
      · rw [if_neg hc]
        cases room with
        | zero =>
            have deep : d.session.maxDepth < d.session.entryDepth .inclusion := by
              show d.session.maxDepth < (d.session.includeStack.length : Int)
              omega
            have tooDeep : d.session.enter? .inclusion p.value =
                .error (.tooDeep p.value d.session.includeStack.length d.session.maxDepth
                  "include") := by
              unfold Session.enter?
              exact (if_neg hc).trans (if_pos deep)
            exact expandTag_unentered 0 h found tooDeep rfl
        | succ room =>
            have named : Template.Named (layered [site.data, data, []]) := by
              refine named_layered _ fun layer hm => ?_
              simp only [List.mem_cons, List.not_mem_nil, or_false] at hm
              obtain rfl | rfl | rfl := hm
              · exact set.data
              · exact hd
              · exact fun kv hm => absurd hm List.not_mem_nil
            have sound := set.offers.sound_of_lookup hm
            have resolved := next room rfl m p.value _ d sound (set.shown_mem hm) named h
              (fun hmem => hc (List.contains_iff_mem.mpr hmem)) (by push_cast at hs; omega)
            have expanded := Shows.expandTag found (Delivers.shows resolved sound named p.value)
            rw [← shown_follow] at expanded
            exact expanded

/-- **Resolving a link gives what its chain comes to**, whatever room there is. -/
theorem resolves_link (set : Setting site links ts) : ∀ room, Resolves site links ts room := by
  have step : ∀ room, (∀ k, room = k + 1 → Resolves site links ts k) →
      Resolves site links ts room := by
    intro room next l page data d hl ht hd h hpage hs
    let s := d.session.withStack (d.session.includeStack ++ [page]) .inclusion
    have entered : d.session.enter? .inclusion page = .ok (d.session.includeStack.length, s) :=
      Session.enter?_fresh hpage (by omega)
    rw [resolveWithin]
    refine resolveTags_link set.delimiters h set.apart hl ht entered ?_ ?_
    · intro hn
      unfold follow
      simp only [hn]
      exact ⟨rfl, rfl⟩
    · intro p hp d' ready hsession
      have stack : d'.session.includeStack = d.session.includeStack ++ [page] := by
        rw [hsession]
        rfl
      have most : d'.session.maxDepth = d.session.maxDepth := by
        rw [hsession]
        rfl
      have expanded := expandTag_link set next hl hp page hd ready (by
        rw [stack, most, List.length_append, List.length_singleton]
        push_cast
        omega)
      rw [stack, most] at expanded
      exact expanded
  intro room
  induction room with
  | zero => exact step 0 nofun
  | succ room ih => exact step (room + 1) fun k e => Nat.succ.inj e ▸ ih

end

end Assembly

end Pagewright
