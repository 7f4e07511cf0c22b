import Pagewright.Template.Filter
import Pagewright.Template.Function
import Pagewright.Value.Percent

/-! # Running templates

Nodes print text, expressions give values, and both may change the store.  Definitions can be
called from anywhere, so the rules are written against a record of the rules one level deeper
(`Machine`); `machine` ties the knot with a bound on the depth.

Main definitions: `Program` (a template with its data), `Machine`, `evaluate` (an expression),
`runNode`, `machine`. -/

namespace Pagewright.Template

open Text
open Value (Passed)

/-- A template that runs: whether names are guarded, the data, and the blocks. -/
structure Program where
  guarded : Bool := true
  data : List (Text × Value) := []
  blocks : List BlockDefinition := []

/-- The names of the blocks. -/
def Program.blockNames (g : Program) : List Text := g.blocks.map BlockDefinition.name

/-- The rules one level deeper. -/
structure Machine where
  expr : Setting → Expr → Run Value
  nodes : Setting → List Node → Run Text
  call : Setting → Value → Passed → Run Value

/-! ### Names -/

/-- The value of a name outside the open scopes. -/
def globalValue (g : Program) (s : Setting) (n : Text) : Run Value := do
  match named? n s.overlay <|> named? n (← get).exported <|> named? n g.data with
  | some v => return v
  | none => return if functionNames.contains n then .function n else .missing n

/-- The value of a name. -/
def readName (g : Program) (s : Setting) (n : Text) : Run Value := do
  match lookupFrames (← get).frames n s.frames with
  | some (some v) => return v
  | some none => return .missing n
  | none => globalValue g s n

/-- What the open scopes have set. -/
def localValues (s : Setting) : Run (List (Text × Value)) := do
  let frames := (← get).frames
  return s.frames.flatMap fun i => (frames[i]?.getD []).filterMap fun (n, v) => v.map fun v => (n, v)

/-- Opens the scope of a body inside a setting, with the values of its parameters. -/
def enter (s : Setting) (scope : Scope) (params : List (Text × Option Value)) : Run Setting := do
  let id ← openFrame (params ++ scope.hidden.map fun n => (n, none))
  return { s with frames := id :: s.frames, mentioned := scope.visible, top := false }

/-- The refusal to assign a field of something that is not a namespace. -/
def notNamespace : Fault := .misuse "cannot assign attribute on non-namespace object"

/-- Refuses a target that is a field of something that is not a namespace. -/
def checkTarget (g : Program) (s : Setting) : Expr → Run Unit
  | .field object _ _ => do
    match ← cell? (← readName g s object) with
    | some (_, .fields _) => return
    | _ => throw notNamespace
  | _ => return

/-- The items of a value that is taken apart into `n` parts. -/
def unpack (n : Nat) (v : Value) : Run (List Value) := do
  match ← attempt (itemsOf v) with
  | .error (.notIterable kind) => throw (.notUnpackable kind)
  | .error e => throw e
  | .ok items =>
    if items.length < n then throw (.tooFewItems n items.length)
    else if n < items.length then throw (.tooManyItems n)
    else return items

mutual

/-- Assigns a value to a target. -/
def assignTarget (g : Program) (s : Setting) (v : Value) : Expr → Run Unit
  | .name n _ => do assign s n (← keep v)
  | .tuple ts _ => do assignItems g s ts (← unpack ts.length v)
  | .list ts _ => do assignItems g s ts (← unpack ts.length v)
  | .field object name _ => do
    match ← cell? (← readName g s object) with
    | some (a, .fields es) => setCell a (.fields (Value.insert (.str name) (← keep v) es))
    | _ => throw notNamespace
  | _ => return

/-- Assigns items to targets. -/
def assignItems (g : Program) (s : Setting) : List Expr → List Value → Run Unit
  | [], _ => return
  | t :: ts, vs => do
    assignTarget g s (firstOf vs) t
    assignItems g s ts (vs.drop 1)

end

/-! ### Operators -/

/-- A binary operator. -/
def applyBinary (op : BinaryOp) (v w : Value) : Run Value := do
  match op with
  | .mod => pureRun (Value.modOrFormat (← seen v) (← whole w))
  | op =>
    let v ← seen v
    let w ← seen w
    pureRun (match op with
      | .add => Value.add v w
      | .sub => Value.sub v w
      | .mul => Value.mul v w
      | .div => Value.div v w
      | .floorDiv => Value.floorDiv v w
      | .pow => Value.pow v w
      | .mod => Value.mod v w)

/-- One comparison. -/
def applyCompare (op : CompareOp) (v w : Value) : Run Bool := do
  match op with
  | .eq => equal v w
  | .ne => return !(← equal v w)
  | .lt => return fits "<" (← order "<" v w)
  | .le => return fits "<=" (← order "<=" v w)
  | .gt => return fits ">" (← order ">" v w)
  | .ge => return fits ">=" (← order ">=" v w)
  | .isIn => contains v w
  | .notIn => return !(← contains v w)

/-- A chain of comparisons, which ends with the first that does not hold. -/
def compareChain (m : Machine) (s : Setting) (v : Value) : List (CompareOp × Expr) → Run Value
  | [] => return .bool true
  | (op, e) :: more => do
    let w ← m.expr s e
    if ← applyCompare op v w then compareChain m s w more else return .bool false

/-- A value as it is printed in a setting. -/
def shownIn (s : Setting) (v : Value) : Run Text := do
  if s.autoescape then printed (← escaped v) else printed v

/-- Values one after the other as one text. -/
def concatenate (s : Setting) (vs : List Value) : Run Value := do
  return textValue s.autoescape (← vs.mapM (shownIn s)).flatten

/-- What is passed by a call. -/
def passed (m : Machine) (s : Setting) (args : Arguments Expr) : Run Passed := do
  let positional ← args.positional.mapM (m.expr s)
  let named ← args.named.mapM fun (n, e) => do return (n, ← m.expr s e)
  let rest ← match args.rest with
    | none => pure []
    | some e => do
      let v ← m.expr s e
      match ← attempt (itemsOf v) with
      | .ok items => pure items
      | .error _ =>
        throw (.misuse ("jinja2.sandbox.SandboxedEnvironment.call() argument after * must be " ++
          "an iterable, not " ++ (← kindOf v)))
  let restNamed ← match args.restNamed with
    | none => pure []
    | some e => do
      let v ← m.expr s e
      match ← seen v with
      | .dict es => es.mapM fun (k, w) => match k.text? with
        | some n => pure (n, w)
        | none => throw .namesNotText
      | _ =>
        throw (.misuse ("jinja2.sandbox.SandboxedEnvironment.call() argument after ** must be " ++
          "a mapping, not " ++ (← kindOf v)))
  return { positional := positional ++ rest, named := named ++ restNamed }

/-- The slice that brackets ask for. -/
def sliceBy (m : Machine) (s : Setting) (v : Value) (start stop step : Option Expr) :
    Run Value := do
  let part := fun (e : Option Expr) => match e with
    | none => (pure none : Run (Option Value))
    | some e => do return some (← m.expr s e)
  let start ← part start
  let stop ← part stop
  let step ← part step
  sliceOf v start stop step

/-- How deeply filters may be nested by applying each other. -/
def filterDepth : Nat := 64

/-- The value of an expression. -/
def evaluate (g : Program) (m : Machine) (s : Setting) : Expr → Run Value
  | .const v _ => return v
  | .name n _ => readName g s n
  | .field object _ _ => readName g s object
  | .tuple xs _ => do return .tuple (← xs.mapM (m.expr s))
  | .list xs _ => do return .list (← xs.mapM (m.expr s))
  | .dict ps _ => do
    let es ← ps.mapM fun (k, e) => do
      let k ← m.expr s k
      return (k, ← m.expr s e)
    return .dict (Value.entriesOf (← es.mapM fun (k, v) => do return (← keyOf k, v)))
  | .cond value test otherwise line => do
    if ← truthOf (← m.expr s test) then m.expr s value
    else match otherwise with
      | some e => m.expr s e
      | none =>
        return .undefined .none none (some ("the inline if-expression on line " ++ ofNat line ++
          " evaluated to false and no else section was defined."))
  | .or l r _ => do
    let v ← m.expr s l
    if ← truthOf v then return v else m.expr s r
  | .and l r _ => do
    let v ← m.expr s l
    if ← truthOf v then m.expr s r else return v
  | .not e _ => do return .bool (!(← truthOf (← m.expr s e)))
  | .compare e ops _ => do compareChain m s (← m.expr s e) ops
  | .binary op l r _ => do
    let v ← m.expr s l
    applyBinary op v (← m.expr s r)
  | .neg e _ => do pureRun (Value.negate (← seen (← m.expr s e)))
  | .pos e _ => do pureRun (Value.confirm (← seen (← m.expr s e)))
  | .concat xs _ => do concatenate s (← xs.mapM (m.expr s))
  | .attr e name _ => do memberOf g.guarded g.blockNames (← m.expr s e) name
  | .item e (.slice start stop step _) _ => do sliceBy m s (← m.expr s e) start stop step
  | .item e key _ => do
    let v ← m.expr s e
    itemOf g.guarded g.blockNames v (← m.expr s key)
  | .slice .. => return .none
  | .call f args _ => do
    let f ← m.expr s f
    m.call s f (← passed m s args)
  | .filter e name args _ => do
    let v ← match e with
      | some e => m.expr s e
      | none => pure (.str [])
    let p ← passed m s args
    if filterNames.contains name then
      applyFilter ⟨g.guarded, g.blockNames, s.autoescape⟩ filterDepth name v p
    else throw (.misuse ("No filter named " ++ quoted name ++ " found."))
  | .test e name args _ => do
    let v ← m.expr s e
    let p ← passed m s args
    if testNames.contains name then return .bool (← askTest filterNames name v p)
    else throw (.misuse ("No test named " ++ quoted name ++ " found."))

/-- A chain of filters with a value put in at its beginning. -/
def withInput (input : Value) : Expr → Expr
  | .filter none name args line => .filter (some (.const input line)) name args line
  | .filter (some e) name args line => .filter (some (withInput input e)) name args line
  | e => e

/-! ### Calls -/

/-- The text that a call gives, as a value. -/
def answered (autoescape : Bool) (t : Text) : Value := textValue autoescape t

/-- Takes a named value out of others. -/
def takeNamed (n : Text) (named : List (Text × Value)) : Option Value × List (Text × Value) :=
  (named? n named, named.filter fun (m, _) => m != n)

/-- The values of parameters that no argument in order is left for, and the named values left. -/
def fillNamed (named : List (Text × Value)) :
    List Text → List (Text × Option Value) × List (Text × Value)
  | [] => ([], named)
  | n :: ns =>
    let (v, left) := takeNamed n named
    let (more, left) := fillNamed left ns
    ((n, v) :: more, left)

/-- Sets the parameters that got no value to their defaults, in order. -/
def fillDefaults (m : Machine) (s : Setting) : List (Text × Option Value × Option Expr) → Run Unit
  | [] => return
  | (n, v, default) :: more => do
    if v.isNone then
      let v ← match default with
        | some e => m.expr s e
        | none =>
          pure (.undefined (.str n) none
            (some ("parameter " ++ quoted n ++ " was not provided")))
      assign s n (← keep v)
    fillDefaults m s more

/-- Calls a definition. -/
def callDefinition (m : Machine) (d : Definition) (p : Passed) : Run Value := do
  let names := d.signature.params.map Prod.fst
  let title : Text := match d.name with
    | some n => quoted n
    | none => "None"
  let direct := (names.zip p.positional).map fun (n, v) => (n, some v)
  let (filled, left) := fillNamed p.named (names.drop p.positional.length)
  let callerFound := names.contains "caller"
  let (caller, left) :=
    if d.takesCaller && !callerFound then
      let (v, left) := takeNamed "caller" left
      let v := match v with
        | some .none | none =>
          Value.undefined (.str "caller") none (some "No caller defined")
        | some v => v
      ([("caller".toList, some v)], left)
    else ([], left)
  if !d.takesNamed then
    match left with
    | [] => pure ()
    | (n, _) :: _ =>
      if (named? "caller" left).isSome then
        throw (.misuse ("macro " ++ title ++ " was invoked with two values for the special " ++
          "caller argument. This is most likely a bug."))
      else throw (.misuse ("macro " ++ title ++ " takes no keyword argument " ++ quoted n))
  if !d.takesRest && names.length < p.positional.length then
    throw (.misuse ("macro " ++ title ++ " takes not more than " ++ ofNat names.length ++
      " argument(s)"))
  let specials :=
    (if d.takesNamed then
      [("kwargs".toList, some (Value.dict (left.map fun (n, v) => (.str n, v))))] else []) ++
    (if d.takesRest then
      [("varargs".toList, some (Value.tuple (p.positional.drop names.length)))] else [])
  let params := direct ++ filled
  let kept ← (params ++ caller ++ specials).mapM fun (n, v) => do
    match v with
    | some v => return (n, some (← keep v))
    | none => return (n, none)
  let mentions := kept.map (fun (n, _) => Mention.sets n) ++ mentionsOf d.signature.defaults
  let scope := Scope.ofBody d.setting.mentioned mentions d.body
  let inner ← enter d.setting scope kept
  let required := names.length - d.signature.defaults.length
  let defaults := names.zipIdx.map fun (_, i) =>
    if i < required then none else d.signature.defaults[i - required]?
  fillDefaults m inner ((params.zip defaults).map fun ((n, v), e) => (n, v, e))
  return answered d.setting.autoescape (← m.nodes inner d.body)

/-- What a definition reads of its callers, unless it has parameters of those names. -/
def definitionAt (s : Setting) (name : Option Text) (signature : Signature) (body : List Node) :
    Definition :=
  let special := readsFirst ["caller", "kwargs", "varargs"] (mentionsAllOf body)
  let names := signature.params.map Prod.fst
  { name, signature, body
    setting := { s with top := false }
    takesCaller := special.contains "caller"
    takesNamed := special.contains "kwargs" && !names.contains "kwargs"
    takesRest := special.contains "varargs" && !names.contains "varargs" }

/-! ### Loops -/

/-- Whether a loop's body can ask for its position. -/
def isExtended (r : Recursion) (recursive : Bool) : Bool :=
  recursive || !(readsFirst ["loop"] (mentionsAllOf r.body)).isEmpty ||
    ((blocksOf r.body) ++ (blocksOf r.otherwise)).any BlockDefinition.seesAround

/-- Whether an item passes the test of a loop. -/
def passes (g : Program) (m : Machine) (r : Recursion) (item : Value) : Run Bool := do
  match r.test with
  | none => return true
  | some e =>
    let scope := Scope.ofBody r.setting.mentioned r.target.targets [.output e]
    let inner ← enter r.setting scope []
    assignTarget g inner item r.target
    truthOf (← m.expr inner e)

/-- Runs the body of a loop on its items; without a position, items are tested as they come.  The
answer says whether the body ran at all. -/
def runItems (g : Program) (m : Machine) (r : Recursion) (scope : Scope) (place : Option Nat) :
    Nat → List Value → Run (Text × Bool)
  | _, [] => return ([], false)
  | i, item :: items => do
    let wanted ← if place.isNone then passes g m r item else pure true
    if !wanted then runItems g m r scope place i items
    else
      match place with
      | some a =>
        match ← cellAt a with
        | .loop l => setCell a (.loop { l with index := i })
        | _ => pure ()
      | none => pure ()
      let params := match place with
        | some a => [("loop".toList, some (Value.cell a))]
        | none => []
      let inner ← enter r.setting scope params
      assignTarget g inner item r.target
      let t ← m.nodes inner r.body
      let (more, _) ← runItems g m r scope place (i + 1) items
      return (t ++ more, true)

/-- Runs a loop on the items of a value at a depth of recursion. -/
def runLoop (g : Program) (m : Machine) (r : Recursion) (recursive : Bool) (v : Value)
    (depth : Nat) : Run Text := do
  let items ← itemsOf v
  let extended := isExtended r recursive
  let items ← if extended then items.filterM (passes g m r) else pure items
  let place ← if extended then
      match ← allocate (.loop { items, depth, again := if recursive then some r else none }) with
      | .cell a => pure (some a)
      | _ => pure none
    else pure none
  let params := r.target.targets ++ (if extended then [Mention.sets "loop"] else [])
  let scope := Scope.ofBody r.setting.mentioned params r.body
  let (t, ran) ← runItems g m r scope place 0 items
  if ran || r.otherwise.isEmpty then return t
  let inner ← enter r.setting (Scope.ofBody r.setting.mentioned [] r.otherwise) []
  m.nodes inner r.otherwise

/-! ### Blocks -/

/-- Runs a block at a place. -/
def runBlock (m : Machine) (s : Setting) (b : BlockDefinition) : Run Text := do
  if b.required then throw (.misuse ("Required block " ++ quoted b.name ++ " not found"))
  let special := readsFirst ["self", "super"] (mentionsAllOf b.body)
  let params := special.map fun n =>
    if n == "self".toList then (n, some Value.self)
    else (n, some (.undefined (.str n) none
      (some ("there is no parent block called " ++ quoted b.name ++ "."))))
  let overlay ← if b.seesAround then do pure ((← localValues s) ++ s.overlay) else pure s.overlay
  let scope := Scope.ofBody [] (special.map .sets) b.body
  let inner ← enter { overlay } scope params
  m.nodes inner b.body

/-- Calls a value. -/
def callValue (g : Program) (m : Machine) (s : Setting) (f : Value) (p : Passed) : Run Value := do
  match f with
  | .undefined .. =>
    present f
    return .none
  | .function name => callFunction g.guarded name p
  | .method v name => callMethod v name p
  | .block name _ => match g.blocks.find? fun b => b.name == name with
    | some b => return answered s.autoescape (← runBlock m s b)
    | none => return .none
  | f => match ← cell? f with
    | some (_, .definition d) => callDefinition m d p
    | some (a, .joiner separator used) =>
      setCell a (.joiner separator true)
      return if used then separator else .str []
    | some (_, .loop l) => match l.again with
      | some r =>
        return answered s.autoescape (← runLoop g m r true (firstOf p.positional) (l.depth + 1))
      | none =>
        throw (.misuse "The loop must have the 'recursive' marker to be called recursively.")
    | _ => throw (.notCallable (← kindOf f))

/-! ### Nodes -/

/-- Runs the first branch whose condition holds, or the last one. -/
def runBranches (m : Machine) (s : Setting) (otherwise : List Node) :
    List (Expr × List Node) → Run Text
  | [] => m.nodes s otherwise
  | (test, body) :: more => do
    if ← truthOf (← m.expr s test) then m.nodes s body else runBranches m s otherwise more

/-- The text of a node. -/
def runNode (g : Program) (m : Machine) (s : Setting) : Node → Run Text
  | .data t => return t
  | .output e => do shownIn s (← m.expr s e)
  | .ifElse branches otherwise => runBranches m s otherwise branches
  | .loop target iter body otherwise test recursive _ => do
    let v ← m.expr s iter
    runLoop g m { target, body, otherwise, test, setting := { s with top := false } } recursive v 0
  | .set target e => do
    checkTarget g s target
    assignTarget g s (← m.expr s e) target
    return []
  | .setBlock target filter body => do
    checkTarget g s target
    let inner ← enter s (Scope.ofBody s.mentioned [] body) []
    let input := answered s.autoescape (← m.nodes inner body)
    let v ← match filter with
      | some e => do
        let v ← m.expr inner (withInput input e)
        if s.autoescape then do pure (.markup (← printed v)) else pure v
      | none => pure input
    assignTarget g s v target
    return []
  | .bind targets values body => do
    let vs ← values.mapM (m.expr s)
    let inner ← enter s (Scope.ofBody s.mentioned (targetsOf targets) body) []
    assignItems g inner targets vs
    m.nodes inner body
  | .block name body seesAround required line =>
    runBlock m s ⟨name, body, seesAround, required, line⟩
  | .define name signature body _ => do
    assign s name (← allocate (.definition (definitionAt s (some name) signature body)))
    return []
  | .callBlock signature call body _ => do
    let caller ← allocate (.definition (definitionAt s none signature body))
    match call with
    | .call f args _ =>
      let f ← m.expr s f
      let p ← passed m s args
      shownIn s (← m.call s f { p with named := p.named ++ [("caller".toList, caller)] })
    | e => do shownIn s (← m.expr s e)
  | .filterBlock filter body => do
    let inner ← enter s (Scope.ofBody s.mentioned [] body) []
    let input := answered s.autoescape (← m.nodes inner body)
    printed (← m.expr inner (withInput input filter))
  | .autoescape e body => do
    let autoescape ← truthOf (← m.expr s e)
    let inner ← enter s (Scope.ofBody s.mentioned [] body) []
    m.nodes { inner with autoescape } body
  | .reference kind e _ => do
    let v ← m.expr s e
    match kind, v with
    | .insert, .list [] | .insert, .tuple [] =>
      throw (.misuse "Tried to select from an empty list of templates.")
    | _, _ => throw (.misuse "no loader for this environment specified")

/-- The text of some nodes. -/
def runNodes (g : Program) (m : Machine) (s : Setting) : List Node → Run Text
  | [] => return []
  | n :: ns => do
    let t ← runNode g m s n
    return t ++ (← runNodes g m s ns)

/-- The rules for what is nested at most as deeply as the bound says. -/
def machine (g : Program) : Nat → Machine
  | 0 =>
    { expr := fun _ _ => throw .tooDeep
      nodes := fun _ _ => throw .tooDeep
      call := fun _ _ _ => throw .tooDeep }
  | n + 1 =>
    { expr := fun s e => evaluate g (machine g n) s e
      nodes := fun s ns => runNodes g (machine g n) s ns
      call := fun s f p => callValue g (machine g n) s f p }

end Pagewright.Template
