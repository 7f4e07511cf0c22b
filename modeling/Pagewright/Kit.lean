import Pagewright.Assembly.Collection
import Pagewright.Assembly.Inclusion
import Pagewright.Settings.Basic

/-! # The kit

A kit prints the pages of a project.  Every page has a session of its own; the press and the memo
are kept from page to page.  A page never fails for what is wrong in it: problems are reported, and
a comment stands in the place of what failed.

Main definitions: `PageResult`, `Kit`, `Kit.render`, `Kit.renderFile`, `Kit.renderAll`,
`Kit.forget`. -/

namespace Pagewright

open Text Assembly

/-- A printed page. -/
structure PageResult where
  text : Text
  path : Text
  /-- The problems and remarks of the render, in order. -/
  notices : List Notice
  /-- The number of keys of once blocks that were emitted. -/
  onceKeys : Nat

namespace PageResult

/-- The problems of the render, in order. -/
def problems (r : PageResult) : List Problem :=
  r.notices.filterMap fun
    | .problem p => some p
    | .remark _ => none

/-- Whether nothing worse than a warning was reported. -/
def isOk (r : PageResult) : Bool := r.problems.all fun p => p.severity != .error

end PageResult

/-! ### One page -/

/-- A flattened page in engine syntax.  If it cannot be expanded at all, a comment stands in front
of it. -/
def expandPage (site : Site) (flattened page : Text) (data : List (Value × Value)) : Work Text :=
  (resolve site flattened data page).orElse fun p => do
    return (← Work.noted page p) ++ flattened

/-- A page as it is printed.  If that fails, a comment stands in front of the page in authoring
syntax. -/
def printPage (flattened expanded page : Text) (data : List (Value × Value)) : Work Text :=
  (Work.print expanded data page).orElse fun p => do
    Work.update fun s => s.report p
    return p.placeholder ++ (← fallback flattened)

/-- A page put together, printed and collected. -/
def makePage (site : Site) (t page : Text) (data : List (Value × Value)) : Work Text := do
  let data := layered [site.data, data]
  let flattened ← flatten site t page
  let expanded ← expandPage site flattened page data
  let printed ← Work.splice (← printPage flattened expanded page data)
  let (text, seen) := collect printed (← Work.session).onceSeen
  Work.update fun s => { s with onceSeen := seen }
  return text

/-! ### Many pages -/

/-- What pages of a project are printed with. -/
structure Kit where
  settings : Settings := {}
  library : Library := .shelf {}
  press : Press := {}
  memo : Memo := {}

namespace Kit

/-- The memo that settings ask for. -/
def memoOf (s : Settings) : Memo := { capacity := s.memo.capacity, lifetime := s.memo.lifetime }

/-- The kit for settings and a library, with an empty press and a given memo. -/
def make (s : Settings) (l : Library) (m : Memo) : Kit where
  settings := s
  library := l
  press := { dialect :=
    { delimiters := s.delimiters, trimBlocks := s.trimBlocks, lstripBlocks := s.lstripBlocks,
      sandbox := s.sandbox } }
  memo := m

/-- The library that settings ask for. -/
def libraryOf (s : Settings) (tree : Tree) : Library := .folder ⟨tree, s.partialsPath⟩

/-- What pages are put together from. -/
def site (k : Kit) : Site := ⟨k.library, k.settings.delimiters, k.settings.data⟩

/-- The desk for a page. -/
def desk (k : Kit) (now : Rat) (nonce : Text) : Desk where
  session := { maxDepth := k.settings.maxDepth, nonce }
  press := k.press
  memo := k.memo
  now := now

/-- Prints a page at a time, with a nonce that its texts do not know. -/
def render (k : Kit) (now : Rat) (nonce t page : Text) (data : List (Value × Value)) :
    Except Failure PageResult × Kit :=
  let (out, d) := ((makePage k.site t page data).run).run (k.desk now nonce)
  let k := { k with press := d.press, memo := d.memo }
  let result := match out with
    | .ok text => .ok ⟨text, page, d.session.notices, d.session.onceSeen.length⟩
    | .error (.failure f) => .error f
    -- No problem is left unhandled; one that were would be the whole page.
    | .error (.problem p) => .ok ⟨p.placeholder, page, d.session.notices ++ [.problem p], 0⟩
  (result, k)

/-- Prints the page in a file of a tree; the page is known by the name of the file. -/
def renderFile (k : Kit) (tree : Tree) (now : Rat) (nonce : Text) (path : DiskPath)
    (data : List (Value × Value)) : Except Failure PageResult × Kit :=
  match tree.read path with
  | .ok t => k.render now nonce t path.name data
  | .error f => (.error f, k)

/-- Runs jobs one after the other with the kit that the one before has left. -/
def runAll (k : Kit) : List (Kit → Except Failure PageResult × Kit) →
    List (Except Failure PageResult) × Kit
  | [] => ([], k)
  | job :: jobs =>
    let (r, k) := job k
    let (rs, k) := runAll k jobs
    (r :: rs, k)

/-- Runs jobs for a number of workers and answers their results in order, or the first failure after
all of them.  As no job shows in the result of another one, the number of workers does not either.
-/
def renderAll (k : Kit) (workers : Int) (jobs : List (Kit → Except Failure PageResult × Kit)) :
    Except Failure (List PageResult) × Kit :=
  if workers ≤ 0 then (.error .noWorkers, k)
  else
    let (rs, k) := k.runAll jobs
    (rs.mapM id, k)

/-- A kit that keeps neither rewritten texts nor templates. -/
def forget (k : Kit) : Kit := { k with press := k.press.forget, memo := k.memo.clear }

end Kit

end Pagewright

/-! ## Batches

Pages are printed with one kit while time goes by: one after the other, or as a batch in whatever
order.  The results of a batch are put in the places of their pages as they become ready.

Main definitions: `Job`, `Step`, `Workshop` (a kit and a clock), `Workshop.run`, `Workshop.inOrder`,
`place`, `gather`. -/

namespace Pagewright

/-- A page to print, with the nonce of its render. -/
structure Job where
  nonce : Text
  text : Text
  path : Text
  data : List (Value × Value) := []

/-- Prints the page of a job. -/
def Job.render (j : Job) (k : Kit) (now : Rat) : Except Failure PageResult × Kit :=
  k.render now j.nonce j.text j.path j.data

/-- The kit for settings and a library before anything was printed. -/
def Kit.fresh (s : Settings) (l : Library) : Kit := Kit.make s l (Kit.memoOf s)

/-- What happens in a workshop. -/
inductive Step where
  | render (job : Job)
  | forget
  | wait (seconds : Rat)

/-- The job of a step that prints a page. -/
def Step.job? : Step → Option Job
  | .render job => some job
  | .forget | .wait _ => none

/-- A kit and the time. -/
structure Workshop where
  kit : Kit
  now : Rat := 0

namespace Workshop

/-- A workshop after a step. -/
def step (w : Workshop) : Step → Workshop
  | .render job => { w with kit := (job.render w.kit w.now).2 }
  | .forget => { w with kit := w.kit.forget }
  | .wait seconds => { w with now := w.now + seconds }

/-- A workshop after some steps. -/
def run (w : Workshop) (history : List Step) : Workshop := history.foldl step w

/-- The results of the jobs that are run in an order, each with its number.  The order tells the
number of the next job and how long it waits. -/
def inOrder (jobs : List Job) (w : Workshop) :
    List (Rat × Nat) → List (Nat × Except Failure PageResult)
  | [] => []
  | (seconds, n) :: order =>
    let w := w.step (.wait seconds)
    match jobs[n]? with
    | none => inOrder jobs w order
    | some job => (n, (job.render w.kit w.now).1) :: inOrder jobs (w.step (.render job)) order

end Workshop

/-- Puts the result of a job in its place; a failure is the end. -/
def place (places : List (Option PageResult)) :
    Nat × Except Failure PageResult → Except Failure (List (Option PageResult))
  | (n, .ok page) => .ok (places.set n (some page))
  | (_, .error f) => .error f

/-- The results of `size` jobs in the order of the jobs, or the first failure that became ready. -/
def gather (size : Nat) (ready : List (Nat × Except Failure PageResult)) :
    Except Failure (List PageResult) := do
  let places ← ready.foldlM place (List.replicate size none)
  return places.reduceOption

end Pagewright
