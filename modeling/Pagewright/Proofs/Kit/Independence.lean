import Pagewright.Kit
import Pagewright.Proofs.Assembly.Asking
import Pagewright.Proofs.Desk.Coupled

/-! # Pages do not show in each other

A kit keeps templates and rewritten texts from page to page.  As both only keep what can be made
again (`Trusted`), a kit prints a page as a fresh kit does, and can be trusted again afterwards
(`Kit.Kept.render`), whether the page failed or not.  By induction this holds after every history of
pages, waiting and forgetting (`Workshop.kept_run`), and whatever the order of a batch
(`Workshop.results_inOrder`).  Results that are gathered by their numbers do not show the order in
which they became ready (`gather_ok`, `gather_error`).  Together these are `render_independent`.

Main definitions: `Kit.Kept`, `Job.texts`. -/

/-! ## The stages of a page

A page is flattened, expanded, printed and collected.  All stages but the second one leave its text
as it is written, so they have every property that is kept by composition and holds of entering
templates, reporting problems and printing (`stages_flatten`, `stages_printPage`).  The problems of
layouts are mishaps and what the stack of layouts reports. -/

namespace Pagewright

open Assembly Directive Work

variable {P : Problem → Prop} {Q : (α : Type) → Work α → Prop} (h : Stages P Q)

include h

/-! ### Layouts -/

section

variable {site : Site} (mishaps : Mishaps P) (circle : ∀ chain, P (.cycle chain "layout"))
  (depth : ∀ path depth most, P (.tooDeep path depth most "layout"))

include mishaps circle depth

theorem stages_extend {next : Text → Text → List (Text × Text) → Work Text}
    (hn : ∀ t page inherited, Q _ (next t page inherited)) (t page : Text)
    (inherited : List (Text × Text)) (e : Directive) :
    Q _ (extend site next t page inherited e) := by
  have referred : ∀ p, layoutReference page e = .error p → P p := by
    intro p hp
    unfold layoutReference at hp
    split at hp
    · cases hp
    · cases hp
      exact mishaps.malformed _ _ _
  have refused : ∀ target (s : Session) p, s.enter? .layout target = .error p → P p := by
    intro target s p hp
    obtain rfl | rfl := Session.enter?_error hp
    · exact circle _
    · exact depth _ _ _
  unfold extend
  refine h.bind (h.ofProblem referred) fun reference => ?_
  refine h.bind (h.ofExcept fun p hp => mishaps.locate hp) fun target => ?_
  refine h.within (refused target) fun _ => ?_
  refine h.bind (h.ofProblem fun p hp => mishaps.read hp) fun layout => ?_
  exact h.bind (hn _ _ _) fun resolved => h.pure _

theorem stages_hop {next : Text → Text → List (Text × Text) → Work Text}
    (hn : ∀ t page inherited, Q _ (next t page inherited)) (t page : Text)
    (inherited : List (Text × Text)) : Q _ (hop site next t page inherited) := by
  unfold hop
  split
  · exact h.pure t
  · exact h.orElse (stages_extend h mishaps circle depth hn t page inherited _) fun p hp =>
      h.bind (h.noted (mishaps.metAt hp page)) fun _ => h.pure _

theorem stages_flattenWithin (room : Nat) : ∀ (t page : Text) (inherited : List (Text × Text)),
    Q _ (flattenWithin site room t page inherited) := by
  induction room with
  | zero => exact stages_hop h mishaps circle depth fun t _ _ => h.pure t
  | succ room ih => exact stages_hop h mishaps circle depth ih

/-- **Layouts**, by induction on how many of them may still be entered. -/
theorem stages_flatten (t page : Text) : Q _ (flatten site t page) :=
  h.bind h.session fun _ => stages_flattenWithin h mishaps circle depth _ _ page []

end

/-! ### Print -/

theorem stages_fallback (t : Text) : Q _ (fallback t) :=
  h.bind h.session fun _ => h.bind (h.ofFailure _) fun _ => h.splice _

theorem stages_printPage (flattened expanded page : Text) (data : List (Value × Value)) :
    Q _ (printPage flattened expanded page data) :=
  h.orElse (h.print expanded data page) fun _ hp =>
    h.bind (h.report hp) fun _ => h.bind (stages_fallback h flattened) fun _ => h.pure _

end Pagewright

/-! ## Pages at desks that work alike

A page is flattened, expanded, printed and collected.  Only expanding it rewrites texts; `pageTexts`
records which.  So no two desks can be told apart by making a page if they are alike in what counts
for these texts (`couplesAt_makePage`).

Main definition: `pageTexts`. -/

namespace Pagewright

open Assembly Directive Work

/-- The texts that are rewritten when a page is made at a desk. -/
def pageTexts (site : Site) (t page : Text) (data : List (Value × Value)) (d : Desk) : List Text :=
  match (flatten site t page).outcome d with
  | (.ok flattened, d') => rewritten site flattened (layered [site.data, data]) page d'
  | (.error _, _) => []

section

variable {site : Site} {P : Text → Prop} {S : Desk → Desk → Prop}
  (h : Coupling site.delimiters P S)

include h

theorem couples_flatten (t page : Text) : Couples S (flatten site t page) :=
  stages_flatten h.stages Mishaps.all (fun _ => trivial) (fun _ _ _ => trivial) t page

theorem couplesAt_expandPage (flattened page : Text) (data : List (Value × Value)) (d : Desk)
    (hp : ∀ u ∈ rewritten site flattened data page d, P u) :
    CouplesAt S (expandPage site flattened page data) d :=
  (couplesAt_resolve h flattened data page d hp).orElse fun p =>
    (h.noted page p).bind fun _ => Couples.pure _

theorem couples_printPage (flattened expanded page : Text) (data : List (Value × Value)) :
    Couples S (printPage flattened expanded page data) :=
  stages_printPage h.stages flattened expanded page data

/-- **Making a page cannot tell desks apart** that are related as far as the texts that it rewrites
are concerned. -/
theorem couplesAt_makePage (t page : Text) (data : List (Value × Value)) (d : Desk)
    (hp : ∀ u ∈ pageTexts site t page data d, P u) :
    CouplesAt S (makePage site t page data) d := by
  unfold makePage
  refine CouplesAt.bind (couples_flatten h t page d) fun flattened d' hf => ?_
  unfold pageTexts at hp
  rw [hf] at hp
  refine (couplesAt_expandPage h flattened page _ d' hp).bind fun expanded e _ => ?_
  refine CouplesAt.bind (couples_printPage h flattened expanded page _ e) fun printed e' _ => ?_
  refine CouplesAt.bind (h.splice printed e') fun spliced e'' _ => h.bind_session ?_
  have finish : Couples S (do
      Work.update fun s => { s with onceSeen := (collect spliced e''.session.onceSeen).2 }
      return (collect spliced e''.session.onceSeen).1 : Work Text) :=
    (h.update (f := fun s => { s with onceSeen := (collect spliced e''.session.onceSeen).2 })
      fun _ => rfl).bind fun _ => Couples.pure _
  exact finish e''

end

end Pagewright

namespace Pagewright

open Assembly Lowering

/-! ### One page -/

/-- The answer for a page that has come to a text or was stopped. -/
def PageResult.of (path : Text) (s : Session) : Except Halt Text → Except Failure PageResult
  | .ok text => .ok ⟨text, path, s.notices, s.onceSeen.length⟩
  | .error (.failure f) => .error f
  | .error (.problem p) => .ok ⟨p.placeholder, path, s.notices ++ [.problem p], 0⟩

namespace Kit

/-- A kit makes the page at its desk and keeps what the work has left there. -/
theorem render_eq (k : Kit) (now : Rat) (nonce t page : Text) (data : List (Value × Value)) :
    k.render now nonce t page data =
      (PageResult.of page ((makePage k.site t page data).outcome (k.desk now nonce)).2.session
        ((makePage k.site t page data).outcome (k.desk now nonce)).1,
      { k with
        press := ((makePage k.site t page data).outcome (k.desk now nonce)).2.press
        memo := ((makePage k.site t page data).outcome (k.desk now nonce)).2.memo }) := by
  unfold render
  rcases h : (makePage k.site t page data).outcome (k.desk now nonce) with ⟨out, d⟩
  have run : ((makePage k.site t page data).run).run (k.desk now nonce) = (out, d) := h
  rw [run]
  match out with
  | .ok text => rfl
  | .error (.failure f) => rfl
  | .error (.problem p) => rfl

/-- A kit for settings and a library of which the press and the memo can be trusted with some
texts. -/
structure Kept (s : Settings) (l : Library) (ts : List Text) (k : Kit) : Prop where
  settings : k.settings = s
  library : k.library = l
  trusted : Trusted (Kit.fresh s l).press.dialect s.delimiters ts k.press k.memo

variable {s : Settings} {l : Library} {ts : List Text} {k : Kit}

theorem kept_fresh (s : Settings) (l : Library) (ts : List Text) : (Kit.fresh s l).Kept s l ts where
  settings := rfl
  library := rfl
  trusted := ⟨rfl, nofun, recalls_of_entries_nil rfl⟩

theorem Kept.forget (h : k.Kept s l ts) : k.forget.Kept s l ts where
  settings := h.settings
  library := h.library
  trusted := ⟨h.trusted.dialect, k.press.genuine_forget, recalls_of_entries_nil rfl⟩

theorem Kept.site (h : k.Kept s l ts) : k.site = ⟨l, s.delimiters, s.data⟩ := by
  rw [Kit.site, h.settings, h.library]

/-- The desk of a page does not show what the kit has kept. -/
theorem Kept.desk (h : k.Kept s l ts) (now now' : Rat) (nonce : Text) :
    Alike (Kit.fresh s l).press.dialect s.delimiters ts ((Kit.fresh s l).desk now nonce)
      (k.desk now' nonce) where
  session := by
    rw [Kit.desk, h.settings]
    rfl
  left := (kept_fresh s l ts).trusted
  right := h.trusted

end Kit

/-- The texts that a fresh kit rewrites for a job. -/
def Job.texts (s : Settings) (l : Library) (j : Job) : List Text :=
  pageTexts ⟨l, s.delimiters, s.data⟩ j.text j.path j.data ((Kit.fresh s l).desk 0 j.nonce)

section

variable {s : Settings} {l : Library} {ts : List Text} {k : Kit} {j : Job}

theorem Kit.Kept.render_zero (h : k.Kept s l ts) (ha : Apart s.delimiters ts)
    (hj : j.texts s l ⊆ ts) (now : Rat) :
    (j.render k now).1 = (j.render (Kit.fresh s l) 0).1 ∧ (j.render k now).2.Kept s l ts := by
  unfold Job.texts at hj
  -- The work at the desk of the fresh kit tells which texts have to be known to the memo.
  have coupling : Work.Coupling s.delimiters (· ∈ ts)
      (Alike (Kit.fresh s l).press.dialect s.delimiters ts) := coupling_alike ha
  have couples : Work.CouplesAt (Alike (Kit.fresh s l).press.dialect s.delimiters ts)
      (makePage ⟨l, s.delimiters, s.data⟩ j.text j.path j.data) ((Kit.fresh s l).desk 0 j.nonce) :=
    couplesAt_makePage coupling j.text j.path j.data _ fun _ hu => hj hu
  obtain ⟨result, alike⟩ := couples (k.desk now j.nonce) (h.desk 0 now j.nonce)
  unfold Job.render
  rw [Kit.render_eq, Kit.render_eq, h.site, (Kit.kept_fresh s l ts).site, result, alike.session]
  exact ⟨rfl, h.settings, h.library, alike.right⟩

/-- **A page comes out as from a fresh kit** at whatever time, and the kit can be trusted again. -/
theorem Kit.Kept.render (h : k.Kept s l ts) (ha : Apart s.delimiters ts) (hj : j.texts s l ⊆ ts)
    (now now' : Rat) :
    (j.render k now).1 = (j.render (Kit.fresh s l) now').1 ∧ (j.render k now).2.Kept s l ts := by
  obtain ⟨same, kept⟩ := h.render_zero ha hj now
  obtain ⟨fresh, -⟩ := (Kit.kept_fresh s l ts).render_zero ha hj now'
  exact ⟨same.trans fresh.symm, kept⟩

end

/-! ### Histories -/

namespace Workshop

variable {s : Settings} {l : Library} {ts : List Text}

/-- The kit of a workshop can be trusted after every step. -/
theorem kept_step (ha : Apart s.delimiters ts) {w : Workshop} (h : w.kit.Kept s l ts) {step : Step}
    (hs : ∀ j ∈ step.job?, j.texts s l ⊆ ts) : (w.step step).kit.Kept s l ts := by
  cases step with
  | render job => exact (h.render ha (hs job rfl) w.now 0).2
  | forget => exact h.forget
  | wait seconds => exact h

/-- The kit of a workshop can be trusted after every history. -/
theorem kept_run (ha : Apart s.delimiters ts) {history : List Step}
    (hs : ∀ j ∈ history.filterMap Step.job?, j.texts s l ⊆ ts) {w : Workshop}
    (h : w.kit.Kept s l ts) : (w.run history).kit.Kept s l ts := by
  induction history generalizing w with
  | nil => exact h
  | cons step history ih =>
      refine ih (fun j hj => hs j ?_) (kept_step ha h fun j hj => hs j ?_)
      · rw [List.filterMap_cons]
        split
        · exact hj
        · exact List.mem_cons_of_mem _ hj
      · rw [List.filterMap_cons, Option.mem_def.mp hj]
        exact List.mem_cons_self

/-- Whatever the order, the result under a number is that of a fresh kit for the job with the number.
The induction is on the order, for all kits that can be trusted. -/
theorem results_inOrder (ha : Apart s.delimiters ts) {jobs : List Job}
    (hj : ∀ j ∈ jobs, j.texts s l ⊆ ts) (now : Rat) : ∀ (order : List (Rat × Nat)) {w : Workshop},
    w.kit.Kept s l ts → ∀ x ∈ w.inOrder jobs order,
      (jobs.map fun j => (j.render (Kit.fresh s l) now).1)[x.1]? = some x.2
  | [], w, h, x, hx => absurd hx List.not_mem_nil
  | (seconds, n) :: order, w, h, x, hx => by
      let waited := w.step (.wait seconds)
      rw [inOrder] at hx
      cases hn : jobs[n]? with
      | none =>
          simp only [hn] at hx
          exact results_inOrder ha hj now order (w := waited) h x hx
      | some j =>
          simp only [hn] at hx
          have texts := hj j (List.mem_of_getElem? hn)
          obtain ⟨same, kept⟩ := h.render ha texts waited.now now
          obtain rfl | hx := List.mem_cons.mp hx
          · rw [List.getElem?_map, hn, Option.map_some, ← same]
            rfl
          · exact results_inOrder ha hj now order (w := waited.step (.render j)) kept x hx

/-- Every job of an order has a result. -/
theorem numbers_inOrder (jobs : List Job) : ∀ (order : List (Rat × Nat)) (w : Workshop),
    (∀ n ∈ order.map Prod.snd, n < jobs.length) →
    (w.inOrder jobs order).map Prod.fst = order.map Prod.snd
  | [], w, h => rfl
  | (seconds, n) :: order, w, h => by
      rw [List.map_cons, List.forall_mem_cons] at h
      obtain ⟨inside, others⟩ := h
      have ih := numbers_inOrder jobs order ((w.step (.wait seconds)).step (.render jobs[n])) others
      rw [inOrder, List.getElem?_eq_getElem inside, List.map_cons]
      simp only [List.map_cons, ih]

end Workshop

/-! ### Gathering -/

section gathering

variable {ready : List (Nat × Except Failure PageResult)}

/-- The places of the jobs that became ready hold their pages, and all others are as they were. -/
theorem foldlM_place (pages : List PageResult) : ∀ (ready : List (Nat × Except Failure PageResult))
    (places : List (Option PageResult)),
    (∀ x ∈ ready, (pages.map .ok)[x.1]? = some x.2) →
    ∃ filled, ready.foldlM place places = .ok filled ∧ filled.length = places.length ∧
      ∀ i < places.length,
        filled[i]? = if i ∈ ready.map Prod.fst then some pages[i]? else places[i]?
  | [], places, h => ⟨places, rfl, rfl, fun i hi => rfl⟩
  | (n, r) :: ready, places, h => by
      rw [List.forall_mem_cons, List.getElem?_map, Option.map_eq_some_iff] at h
      obtain ⟨⟨page, hp, rfl⟩, others⟩ := h
      obtain ⟨filled, run, length, held⟩ := foldlM_place pages ready (places.set n (some page)) others
      refine ⟨filled, run, length.trans List.length_set, fun i hi => ?_⟩
      rw [held i (by rwa [List.length_set]), List.map_cons, List.getElem?_set]
      by_cases later : i ∈ ready.map Prod.fst
      · rw [if_pos later, if_pos (List.mem_cons_of_mem n later)]
      · rw [if_neg later]
        by_cases own : n = i
        · subst own
          rw [if_pos rfl, if_pos hi, if_pos List.mem_cons_self, hp]
        · have other : i ∉ n :: ready.map Prod.fst := by
            rw [List.mem_cons, not_or]
            exact ⟨fun e => own e.symm, later⟩
          rw [if_neg own, if_neg other]

/-- Pages are gathered in the order of their jobs, in whichever order they became ready. -/
theorem gather_ok {pages : List PageResult} (h : ∀ x ∈ ready, (pages.map .ok)[x.1]? = some x.2)
    (all : ∀ i < pages.length, i ∈ ready.map Prod.fst) : gather pages.length ready = .ok pages := by
  obtain ⟨filled, run, length, held⟩ := foldlM_place pages ready (List.replicate pages.length none) h
  rw [List.length_replicate] at length held
  have full : filled = pages.map some := by
    refine List.ext_getElem? fun i => ?_
    rw [List.getElem?_map]
    by_cases hi : i < pages.length
    · rw [held i hi, if_pos (all i hi), List.getElem?_eq_getElem hi]
      rfl
    · rw [List.getElem?_eq_none (by omega), List.getElem?_eq_none (by omega)]
      rfl
  unfold gather
  rw [run, full]
  show Except.ok ((pages.map some).filterMap id) = .ok pages
  rw [List.filterMap_map]
  exact congrArg Except.ok List.filterMap_some

/-- The first failure that became ready ends the gathering. -/
theorem foldlM_place_error {n : Nat} {f : Failure} : ∀ {ready : List (Nat × Except Failure PageResult)}
    (places : List (Option PageResult)), (n, .error f) ∈ ready →
    ∃ m g, (m, .error g) ∈ ready ∧ ready.foldlM place places = .error g
  | (m, .error g) :: ready, places, h => ⟨m, g, List.mem_cons_self, rfl⟩
  | (m, .ok page) :: ready, places, h => by
      have later : (n, .error f) ∈ ready := by
        obtain e | later := List.mem_cons.mp h
        · cases e
        · exact later
      obtain ⟨m', g, hg, run⟩ := foldlM_place_error (places.set m (some page)) later
      exact ⟨m', g, List.mem_cons_of_mem _ hg, run⟩

/-- If a job has failed, the failure of some job is answered. -/
theorem gather_error {results : List (Except Failure PageResult)} (size : Nat)
    (h : ∀ x ∈ ready, results[x.1]? = some x.2)
    (all : ∀ i < results.length, i ∈ ready.map Prod.fst) {f : Failure} (hf : .error f ∈ results) :
    ∃ g, .error g ∈ results ∧ gather size ready = .error g := by
  obtain ⟨i, hi⟩ := List.getElem?_of_mem hf
  obtain ⟨inside, -⟩ := List.getElem?_eq_some_iff.mp hi
  obtain ⟨⟨n, r⟩, hx, rfl⟩ := List.mem_map.mp (all i inside)
  obtain rfl : .error f = r := Option.some.inj (hi.symm.trans (h _ hx))
  obtain ⟨m, g, hg, run⟩ := foldlM_place_error (List.replicate size none) hx
  refine ⟨g, List.mem_of_getElem? (h _ hg), ?_⟩
  unfold gather
  rw [run]
  rfl

end gathering

/-! ### Independence -/

section

variable {s : Settings} {l : Library} {ts : List Text}

theorem runAll_eq (ha : Apart s.delimiters ts) (now now' : Rat) : ∀ {jobs : List Job} {k : Kit},
    (∀ j ∈ jobs, j.texts s l ⊆ ts) → k.Kept s l ts →
    (k.runAll (jobs.map fun j k => j.render k now)).1 =
      jobs.map fun j => (j.render (Kit.fresh s l) now').1
  | [], k, hj, h => rfl
  | j :: jobs, k, hj, h => by
      rw [List.forall_mem_cons] at hj
      obtain ⟨own, others⟩ := hj
      obtain ⟨same, kept⟩ := h.render ha own now now'
      have ih := runAll_eq ha now now' others kept
      rw [List.map_cons, List.map_cons, ← ih, ← same]
      rfl

end

section

variable {α β : Type} {f : α → Except Failure β}

theorem map_of_mapM_ok : ∀ {as : List α} {bs : List β}, as.mapM f = .ok bs → as.map f = bs.map .ok
  | [], bs, h => by
      obtain rfl : [] = bs := Except.ok.inj h
      rfl
  | a :: as, bs, h => by
      rw [List.mapM_cons] at h
      cases ha : f a with
      | error e =>
          rw [ha] at h
          cases h
      | ok b =>
          cases has : as.mapM f with
          | error e =>
              rw [ha, has] at h
              cases h
          | ok rest =>
              rw [ha, has] at h
              obtain rfl : b :: rest = bs := Except.ok.inj h
              rw [List.map_cons, List.map_cons, ha, map_of_mapM_ok has]

theorem mem_of_mapM_error {e : Failure} : ∀ {as : List α}, as.mapM f = .error e →
    .error e ∈ as.map f
  | [], h => by cases h
  | a :: as, h => by
      rw [List.mapM_cons] at h
      rw [List.map_cons]
      cases ha : f a with
      | error e' =>
          rw [ha] at h
          obtain rfl : e' = e := Except.error.inj h
          exact List.mem_cons_self
      | ok b =>
          cases has : as.mapM f with
          | error e' =>
              rw [ha, has] at h
              obtain rfl : e' = e := Except.error.inj h
              exact List.mem_cons_of_mem _ (mem_of_mapM_error has)
          | ok rest =>
              rw [ha, has] at h
              cases h

end

theorem exists_ok_of_toBool {r : Except Failure (List PageResult)} (h : r.toBool = true) :
    ∃ pages, r = .ok pages := by
  cases r with
  | ok pages => exact ⟨pages, rfl⟩
  | error e => cases h

/-- A shelf with one partial. -/
def onePartial : Library := .shelf ⟨[("p", "@if(1)b@endif")]⟩

/-- A page that includes the partial. -/
def including : Job := { nonce := "5eed", text := "@include('p')", path := "one" }

/-- A page that asks for a partial that is missing. -/
def missing : Job := { nonce := "5eed", text := "@include('q')", path := "two" }

/-- A page that holds a token of the render, under which there is no output. -/
def forged : Job :=
  { nonce := "5eed", text := "\x00hk:out:5eed:7\x00@include('p')", path := "three" }

/-- A history in which one page fails and one partial is missing. -/
def troubled : List Step := [.render including, .wait 1000, .render forged, .forget, .render missing]

theorem apart_troubled : Apart {}
    ((troubled.filterMap Step.job? ++ [missing, including]).flatMap (Job.texts {} onePartial)) := by
  have texts : (troubled.filterMap Step.job? ++ [missing, including]).flatMap
        (Job.texts {} onePartial) =
      (["@include('p')", "@if(1)b@endif", "\x00hk:out:5eed:7\x00@include('p')", "@if(1)b@endif",
        "@include('q')", "@include('q')", "@include('p')", "@if(1)b@endif"] : List Text) := by
    decide +kernel
  rw [texts]
  unfold Apart
  decide +kernel

end Pagewright
