import Mathlib.Data.List.Infix
import Pagewright.Proofs.Assembly.Chain
import Pagewright.Proofs.Desk.Stash
import Pagewright.Proofs.Kit.Chain
import Pagewright.Proofs.Template.Press
import Pagewright.Proofs.Text.Replace

/-! # A value at the end of a chain

Pages that do nothing but include the next one lead to a window, which prints a value.  Whatever
text the value is, it comes out of the window as it is and is set aside, so that no page on the way
back reads it: the pages print tokens only (`shows_source`).  A text that spelled the nonce of the
render could be taken for a token where it is first printed, and nowhere else.

Main definitions: `Passage` (a page that includes another one), `source`, `Library.Leads`. -/

namespace Pagewright

open Text Directive Lowering Pagewright.Path Template

namespace Session

/-- A text that does not hold the nonce holds no token. -/
theorem splice_of_not_infix {s : Session} {t : Text} (h : ¬ s.nonce <:+: t) : s.splice t = .ok t := by
  have calm : s.Calm [] [.piece t] := by
    refine ⟨fun c v hv => token?_eq_none fun lead => h ?_, trivial⟩
    rw [assembled_nil, List.append_nil] at lead
    exact s.nonce_infix.trans (lead.isInfix.trans hv.isInfix)
  have spliced := splice_assembled (fun _ => Or.inl ⟨rfl, rfl⟩ : s.Answers [] []) calm
  rwa [assembled_piece, assembled_nil, List.append_nil] at spliced

end Session

namespace Assembly

/-! ### Pages that include a page -/

/-- A page that includes another one and holds nothing else: a directive or a tag. -/
inductive Passage where
  | directive (path : Literal)
  | tag (path : Text)

namespace Passage

/-- The path of the page that is included. -/
def path : Passage → Text
  | .directive p => p.value
  | .tag p => p

/-- The page as it is written. -/
def shown : Passage → Text
  | .directive p => (Link.call p).shown
  | .tag p => includeTag p []

/-- The link that a directive is. -/
theorem shown_directive (p : Literal) : (Link.mk [] (some p)).shown = (directive p).shown := by
  rw [shown_link]
  rfl

theorem sound_directive {p : Literal} (h : IsName p.value) : (Link.mk [] (some p)).Sound :=
  ⟨fun _ _ => List.not_mem_nil, fun _ hq => Option.some.inj hq ▸ h⟩

end Passage

/-- The first page of a chain that ends in a window. -/
def source : List Passage → Text
  | [] => window
  | p :: _ => p.shown

end Assembly

/-- Each page of the chain includes the one behind it under a name of the library. -/
def Library.Leads (l : Library) : List Assembly.Passage → Prop
  | [] => True
  | p :: ps => IsName p.path ∧ l.text? p.path = some (Assembly.source ps) ∧ l.Leads ps

namespace Assembly

section

variable {ts : List Text} {d : Desk} {site : Site} {p : Passage} {ps : List Passage}

/-- A text without at signs and comments is not rewritten, and no memo is asked for it. -/
theorem transformKept_plain {t : Text} (ha : '@' ∉ t) (hc : ¬ "\x7b\x7b--".toList <:+: t)
    (now : Rat) (m : Memo) : transformKept {} now t m = (.ok t, m) := by
  have plain : ¬ mayHoldDirectives t = true := by
    rw [mayHoldDirectives, Bool.or_eq_true, not_or]
    exact ⟨fun h => ha (List.contains_iff_mem.mp h), fun h => hc (occursIn_iff.mp h)⟩
  unfold transformKept
  rw [if_neg plain]

theorem lower_plain {t : Text} (ha : '@' ∉ t) (hc : ¬ "\x7b\x7b--".toList <:+: t) (d : Desk) :
    (Work.lower {} t).outcome d = (.ok t, d) := by
  rw [Work.outcome_lower, transformKept_plain ha hc]
  rfl

/-- Whichever way a page includes another one, its tag is what the engine reads. -/
theorem lower_passage (h : Ready ts d) (ha : Apart {} ts) (hp : IsName p.path)
    (ht : p.shown ∈ ts) :
    ∃ m, (Work.lower {} p.shown).outcome d = (.ok (includeTag p.path []), { d with memo := m }) ∧
      Ready ts { d with memo := m } := by
  cases p with
  | directive q =>
      rw [← Passage.shown_directive] at ht ⊢
      exact lower_link h ha (Passage.sound_directive hp) ht
  | tag q =>
      have clear : ∀ c ∈ "@\x7b".toList, c ∉ includeTag q [] := by
        have all : ∀ c ∈ "@\x7b".toList, isNameChar c = false ∧ c ∉ "<include src=\"\" />".toList :=
          forall_mem_text (by decide)
        exact fun c hc => not_mem_includeTag hp (all c hc).1 (all c hc).2
      refine ⟨d.memo, ?_, h⟩
      exact lower_plain (clear _ (by decide)) (not_infix_of_not_mem (clear '\x7b' (by decide))) d

/-! ### What a page shows -/

/-- Nothing in a window means anything before it is printed. -/
theorem window_plain :
    '@' ∉ window ∧ '<' ∉ window ∧ ¬ "\x7b\x7b--".toList <:+: window := by
  decide +kernel

/-- **A window shows its value** as it is. -/
theorem shows_window {next : Text → List (Value × Value) → Text → Work Text} {page v : Text}
    {data : List (Value × Value)} {depth : Int} {s : Session} (hds : site.delimiters = {})
    (h : Ready ts d) (he : d.session.enter? .inclusion page = .ok (depth, s))
    (hv : ¬ d.session.nonce <:+: v) (hd : Binds "x" (.str v) data) :
    Shows ts (resolveTags site next window data page) data page d v [] := by
  obtain ⟨sign, angle, comment⟩ := window_plain
  have none : includeTags window = [] := includeTags_eq_nil angle
  have lowered : (Work.lower site.delimiters window).outcome { d with session := s } =
      (.ok window, { d with session := s }) := by
    rw [hds]
    exact lower_plain sign comment _
  have expanded : ((includeTags window).mapM (expandTag site next data page)).outcome
      { d with session := s } = (.ok [], { d with session := s }) := by
    rw [none]
    rfl
  have kept : replaceTags window [] = window := by
    unfold replaceTags
    rw [none]
    simp [applyEdits, editFrom]
  obtain ⟨entry, resolved⟩ := resolveTags_outcome he lowered expanded
  rw [kept] at resolved
  have ext := (Session.Extended.entry s entry).leave he
  obtain ⟨named, hnamed, value, -⟩ := hd
  obtain ⟨press, printed, sound⟩ :=
    h.press.print_window hnamed ((named?_eq_lookup _ named).trans value) (some page)
  refine ⟨window, _, v, press, resolved, h.of_session ext.nonce, ext, printed, sound, ?_⟩
  exact Session.splice_of_not_infix (ext.nonce.symm ▸ hv)

/-- A page that includes another one shows what the tag of that one stands for. -/
theorem shows_passage {next : Text → List (Value × Value) → Text → Work Text} {page v : Text}
    {data : List (Value × Value)} {depth : Int} {s : Session} (hds : site.delimiters = {})
    (h : Ready ts d) (ha : Apart {} ts) (hp : IsName p.path) (ht : p.shown ∈ ts)
    (he : d.session.enter? .inclusion page = .ok (depth, s)) (hd : Template.Named data)
    (hx : ∀ d' : Desk, Ready ts d' → d'.session = s →
      Delivers ts (expandTag site next data page (tagAt 0 p.path)) d' [] v []) :
    Shows ts (resolveTags site next p.shown data page) data page d v [] := by
  have nonce : s.nonce = d.session.nonce := by
    obtain ⟨-, rfl⟩ := Session.enter?_ok he
    rfl
  obtain ⟨m, lowered, ready⟩ := lower_passage (h.of_session nonce) ha hp ht
  obtain ⟨token, d2, ho, stands, ready2, ext2⟩ := hx _ ready rfl
  have clear : ∀ c ∈ "@\x7b<".toList, c ∉ ([] : Text) := fun _ _ => List.not_mem_nil
  have tags : includeTags (includeTag p.path []) = [tagAt 0 p.path] := includeTags_tag clear hp
  have expanded : ((includeTags (includeTag p.path [])).mapM
      (expandTag site next data page)).outcome { d with session := s, memo := m } =
        (.ok [token], d2) := by
    rw [tags, List.mapM_cons]
    exact (Work.outcome_bind_ok ho).trans rfl
  rw [← hds] at lowered
  have delivered : Delivers ts (resolveTags site next p.shown data page) d [] v [] :=
    resolveTags_delivers he lowered expanded (replaceTags_tag clear hp token) stands ready2 ext2
  have bare : (Link.mk [] none).Sound := ⟨fun _ _ => List.not_mem_nil, nofun⟩
  exact Delivers.shows delivered bare hd page

/-! ### All levels -/

/-- What a chain to a window relies on: the usual delimiters, a library whose root can be written
and which leads to the window, and texts under fingerprints of their own. -/
structure Route (site : Site) (ts : List Text) (ps : List Passage) : Prop where
  delimiters : site.delimiters = {}
  root : ∀ f, site.library = .folder f → '\x00' ∉ f.root.shown
  leads : site.library.Leads ps
  texts : ∀ p ∈ ps, p.shown ∈ ts
  apart : Apart {} ts
  data : Template.Named site.data

theorem Route.tail (r : Route site ts (p :: ps)) : Route site ts ps where
  delimiters := r.delimiters
  root := r.root
  leads := r.leads.2.2
  texts q hq := r.texts q (List.mem_cons_of_mem p hq)
  apart := r.apart
  data := r.data

/-- A text without at signs has no places for slots. -/
theorem fillSlots_eq_self {t : Text} (h : '@' ∉ t) (slots : List (Text × Text)) :
    fillSlots t slots = t := by
  have none : blocks "slot" "endslot" isShort t = [] := by
    unfold blocks
    rw [directives_eq_nil h]
    rfl
  unfold fillSlots
  rw [none]
  rfl

theorem fillSlots_source (leads : site.library.Leads ps) : fillSlots (source ps) [] = source ps := by
  match ps, leads with
  | [], _ => exact fillSlots_eq_self window_plain.1 []
  | .directive p :: _, leads =>
      rw [source, ← Passage.shown_directive]
      exact fillSlots_link (Passage.sound_directive leads.1) []
  | .tag p :: _, leads =>
      exact fillSlots_eq_self (not_mem_includeTag leads.1 (by decide) (by decide)) []

/-- **A chain shows the value in the window** at its end, however long it is. -/
theorem shows_source {v : Text} : ∀ (ps : List Passage) (room : Nat) (page : Text)
    (data : List (Value × Value)) (d : Desk), Route site ts ps → ps.length ≤ room →
    (page :: ps.map Passage.path).Nodup →
    (∀ q ∈ page :: ps.map Passage.path, q ∉ d.session.includeStack) →
    (d.session.includeStack.length + ps.length : Int) ≤ d.session.maxDepth →
    Ready ts d → ¬ d.session.nonce <:+: v → Binds "x" (.str v) data →
    Shows ts (resolveWithin site (room + 1) (source ps) data page) data page d v []
  | [], room, page, data, d, route, _, _, fresh, deep, ready, hv, hd => by
      have entered := Session.enter?_fresh (fresh page List.mem_cons_self) (by simpa using deep)
      exact shows_window route.delimiters ready entered hv hd
  | p :: ps, 0, page, data, d, route, hroom, _, _, _, _, _, _ => absurd hroom (by simp)
  | p :: ps, room + 1, page, data, d, route, hroom, nodup, fresh, deep, ready, hv, hd => by
      obtain ⟨hp, ht, leads⟩ := route.leads
      obtain ⟨apart, nodup'⟩ := List.nodup_cons.mp nodup
      rw [List.length_cons] at hroom deep
      have entered := Session.enter?_fresh (fresh page List.mem_cons_self) (by omega)
      refine shows_passage route.delimiters ready route.apart hp
        (route.texts p List.mem_cons_self) entered hd.named fun d' ready' hs => ?_
      have stack : d'.session.includeStack = d.session.includeStack ++ [page] := by
        rw [hs]
        rfl
      have found := partialFor_held route.root data page 0 hp ht (fillSlots_source leads) d'
      refine Shows.expandTag found (shows_source ps room p.path _ d' route.tail (by omega) nodup'
        (fun q hq => ?_) ?_ ready' ?_ (Binds.layered route.data hd))
      · rw [stack, List.mem_append, List.mem_singleton, not_or]
        exact ⟨fresh q (List.mem_cons_of_mem page hq), fun e => apart (e ▸ hq)⟩
      · rw [stack, show d'.session.maxDepth = d.session.maxDepth by rw [hs]; rfl,
          List.length_append, List.length_singleton]
        push_cast
        omega
      · rw [show d'.session.nonce = d.session.nonce by rw [hs]; rfl]
        exact hv

end

end Assembly

end Pagewright

/-! ## A value is printed as it is

A page that shows a value, itself or through any number of includes, prints the text that the value
is (`Kit.render_source`): no directive, tag, include or token in it means anything on the way.  The
finished page is collected once at the end, and there a value counts as any other text: markers of
once blocks and stacks in it take effect (`Kit.render_source_markers`). -/

namespace Pagewright

open Text Directive Lowering Pagewright.Path Assembly Template

namespace Assembly

variable {site : Site} {ps : List Passage}

/-- A text without at signs and comments has no layouts. -/
theorem flatten_plain {t : Text} (ha : '@' ∉ t) (hc : ¬ "\x7b\x7b--".toList <:+: t) (page : Text)
    (d : Desk) : (flatten site t page).outcome d = (.ok t, d) := by
  have within (room : Nat) : flattenWithin site room t page [] = pure t := by
    cases room <;> rw [flattenWithin, hop, directives_eq_nil ha] <;> rfl
  rw [flatten, Work.outcome_bind_ok (Work.outcome_session d), stripComments_eq_self hc, within]
  rfl

/-- Neither a window nor a page that includes another one has layouts. -/
theorem flatten_source (leads : site.library.Leads ps) (page : Text) (d : Desk) :
    (flatten site (source ps) page).outcome d = (.ok (source ps), d) := by
  match ps, leads with
  | [], _ => exact flatten_plain window_plain.1 window_plain.2.2 page d
  | .directive p :: _, leads =>
      rw [source, ← Passage.shown_directive]
      exact flatten_link (Passage.sound_directive leads.1) page d
  | .tag p :: _, leads =>
      have brace : '\x7b' ∉ includeTag p [] :=
        not_mem_includeTag leads.1 (by decide) (by decide)
      exact flatten_plain (not_mem_includeTag leads.1 (by decide) (by decide))
        (not_infix_of_not_mem brace) page d

end Assembly

namespace Kit

/-- A kit in which a chain of pages leads to a window: it has the usual delimiters, its limit lets
all pages in, its library holds them, its press and memo can be trusted with the given texts, and no
two of the texts have one fingerprint. -/
structure Opens (k : Kit) (ps : List Passage) (ts : List Text) : Prop where
  route : Route k.site ts ps
  depth : (ps.length : Int) ≤ k.settings.maxDepth
  press : k.press.Sound
  memo : Recalls {} ts k.memo

variable {k : Kit} {ps : List Passage} {ts : List Text}

/-- The page at the beginning of a chain is what the window shows, as it is collected. -/
theorem makePage_source (h : k.Opens ps ts) {page : Text}
    (fresh : (page :: ps.map Passage.path).Nodup) (now : Rat) {nonce v : Text}
    (hn : ∀ c ∈ nonce, c.isAlphanum = true) (hv : ¬ nonce <:+: v) :
    ∃ d, (makePage k.site (source ps) page [(.str "x", .str v)]).outcome (k.desk now nonce) =
        (.ok (collect v []).1, d) ∧ Ready ts d ∧ d.session.notices = [] ∧
      d.session.onceSeen = (collect v []).2 := by
  have bound : Binds "x" (.str v) (layered [k.site.data, [(.str "x", .str v)]]) :=
    Binds.layered h.route.data (binds_single "x" (.str v))
  have ready : Ready ts (k.desk now nonce) := ⟨h.press, h.memo, hn⟩
  have depth := h.depth
  have deep : (([] : List Text).length + ps.length : Int) ≤ k.settings.maxDepth := by
    simpa using depth
  have shown := shows_source ps k.settings.maxDepth.toNat page _ (k.desk now nonce) h.route (by omega)
    fresh (fun _ _ => List.not_mem_nil) deep ready hv bound
  obtain ⟨d, s, made, ready', ⟨more, entry, rfl⟩, left⟩ :=
    makePage_shows (by omega) (flatten_source h.route.leads page _) shown
  refine ⟨d, made, ready', ?_, ?_⟩
  · rw [left]
    rfl
  · rw [left]

/-- **A value is printed as it is**, by a window and by any chain of pages that leads to one, but
for what is collected at the end: the page is the collected value, and without markers in it that is
the value itself.  Nothing is noticed. -/
theorem render_source (h : k.Opens ps ts) {page : Text}
    (fresh : (page :: ps.map Passage.path).Nodup) (now : Rat) {nonce v : Text}
    (hn : ∀ c ∈ nonce, c.isAlphanum = true) (hv : ¬ nonce <:+: v) :
    ∃ k' : Kit, k.render now nonce (source ps) page [(.str "x", .str v)] =
        (.ok ⟨(collect v []).1, page, [], (collect v []).2.length⟩, k') ∧
      (Markless v → k.render now nonce (source ps) page [(.str "x", .str v)] =
        (.ok ⟨v, page, [], 0⟩, k')) ∧ k'.Opens ps ts := by
  obtain ⟨d, made, ready, silent, seen⟩ := makePage_source h fresh now hn hv
  have rendered : k.render now nonce (source ps) page [(.str "x", .str v)] =
      (.ok ⟨(collect v []).1, page, [], (collect v []).2.length⟩,
        { k with press := d.press, memo := d.memo }) := by
    have run : ((makePage k.site (source ps) page [(.str "x", .str v)]).run).run
        (k.desk now nonce) = (.ok (collect v []).1, d) := made
    unfold render
    rw [run]
    simp only [silent, seen]
  refine ⟨_, rendered, fun quiet => ?_, h.route, h.depth, ready.press, ready.memo⟩
  rw [rendered, quiet.collect []]
  rfl

theorem quote_not_mem_door : '\'' ∉ "a".toList := by decide

theorem backslash_not_mem_door : '\\' ∉ "a".toList := by decide

/-- A page that leads to a window by a directive and a tag. -/
def corridor : List Passage :=
  [.directive (.single "a" quote_not_mem_door backslash_not_mem_door), .tag "b"]

/-- The pages behind the first one of the corridor. -/
def rooms : Shelf := ⟨[("a", source (corridor.drop 1)), ("b", window)]⟩

/-- A value that looks like everything that a page can hold. -/
def mimic : Text :=
  "@include('a')@if(1)\x7b\x7b x \x7d\x7d\x7b% raw %\x7d\x7b\x7b-- --\x7d\x7d" ++
    "<include src=\"b\" /><!--hk:-->\x00hk:out:0:0\x00"

theorem opens_corridor :
    (Kit.make {} (.shelf rooms) {}).Opens corridor (corridor.map Passage.shown) where
  route :=
    { delimiters := rfl
      root := nofun
      leads := ⟨by decide, rfl, by decide, rfl, trivial⟩
      texts := fun _ hp => List.mem_map_of_mem hp
      apart := apart_pair (t := "@include('a')") (u := "<include src=\"b\" />") (by decide +kernel)
      data := nofun }
  depth := by decide
  press := ⟨⟨rfl, rfl⟩, nofun⟩
  memo := recalls_of_entries_nil rfl

/-- What looks like anything else is printed as it is; the place of a stack is not. -/
theorem render_source_markers : ∃ k k' : Kit,
    (Kit.make {} (.shelf rooms) {}).render 0 "5eed" "@include('a')" "page" [(.str "x", .str mimic)] =
        (.ok ⟨mimic, "page", [], 0⟩, k) ∧
      k.render 0 "5eed" "@include('a')" "page" [(.str "x", .str "<!--hk:stack:a-->")] =
        (.ok ⟨[], "page", [], 0⟩, k') := by
  have letters : ∀ c ∈ "5eed".toList, c.isAlphanum = true := forall_mem_text (by decide)
  have fresh : ("page".toList :: corridor.map Passage.path).Nodup := by decide
  obtain ⟨k, -, first, opens⟩ := render_source opens_corridor fresh 0 letters
    (show ¬ "5eed".toList <:+: mimic by decide +kernel)
  obtain ⟨k', second, -, -⟩ := render_source opens fresh 0 letters
    (show ¬ "5eed".toList <:+: "<!--hk:stack:a-->".toList by decide)
  have markless : Markless mimic := by decide
  have emptied : collect "<!--hk:stack:a-->" [] = ([], []) := by decide
  rw [emptied] at second
  exact ⟨k, k', first markless, second⟩

end Kit

end Pagewright
