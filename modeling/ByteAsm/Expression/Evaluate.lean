import ByteAsm.Expression.Builtin

namespace ByteAsm.Expression

-- What the names of a program mean: those that it assigns have the values that it gives them, and
-- others have those of `outer`.
structure Scope where
  assigned : List Text
  outer    : Text → Option Value

namespace Scope

def value? (scope : Scope) (m : Memory) (s : Text) : Option Value :=
  if scope.assigned.contains s then m.names.lookup s else scope.outer s

def knows (scope : Scope) (s : Text) : Bool :=
  scope.assigned.contains s || (scope.outer s).isSome

end Scope

namespace Term

mutual

def allNames (p : Text → Bool) : Term → Bool
  | absent => true
  | name s => p s
  | int _ => true
  | float _ => true
  | string _ => true
  | list items => allNamesOf p items
  | tuple items => allNamesOf p items
  | dict entries => allNamesOfEntries p entries
  | unary _ x => allNames p x
  | binary _ x y => allNames p x && allNames p y
  | cond test yes no => allNames p test && allNames p yes && allNames p no
  | index x i => allNames p x && allNames p i
  | slice x low high step =>
    allNames p x && allNames p low && allNames p high && allNames p step
  | call f args named rest restNamed =>
    allNames p f && allNamesOf p args && allNamesOfNamed p named && allNames p rest &&
      allNames p restNamed

def allNamesOf (p : Text → Bool) : List Term → Bool
  | [] => true
  | x :: xs => allNames p x && allNamesOf p xs

def allNamesOfEntries (p : Text → Bool) : List (Term × Term) → Bool
  | [] => true
  | (k, v) :: rest => allNames p k && allNames p v && allNamesOfEntries p rest

def allNamesOfNamed (p : Text → Bool) : List (Text × Term) → Bool
  | [] => true
  | (_, x) :: rest => allNames p x && allNamesOfNamed p rest

end

mutual

def targets? : Term → Option (List Text)
  | name s => some [s]
  | index _ _ => some []
  | list items => targetsAll? items
  | tuple items => targetsAll? items
  | _ => none

def targetsAll? : List Term → Option (List Text)
  | [] => some []
  | x :: xs =>
    match targets? x, targetsAll? xs with
    | some ss, some ts => some (ss ++ ts)
    | _, _ => none

end

mutual

def eval (scope : Scope) : Term → Action Value
  | absent => return .none
  | name s => do scope.value? (← get) s
  | int n => return .int n
  | float x => return .float x
  | string t => return .string t
  | list items => do Memory.newList (← evalAll scope [] items)
  | tuple items => return .tuple (← evalAll scope [] items)
  | dict entries => do Memory.newDict (← evalEntries scope [] entries)
  | unary o x => do
    let v ← eval scope x
    Value.unary? (← get) o v
  | binary o x y => do
    let v ← eval scope x
    let isTrue := (← get).truth v
    if o = .and ∧ !isTrue ∨ o = .or ∧ isTrue then return v
    else Value.binary o v (← eval scope y)
  | cond test yes no => do
    let v ← eval scope test
    if (← get).truth v then eval scope yes else eval scope no
  | index x i => do
    let v ← eval scope x
    let w ← eval scope i
    Value.index? (← get) v w
  | slice x low high step => do
    Value.slice (← eval scope x) (← eval scope low) (← eval scope high) (← eval scope step)
  | call f args named rest restNamed => do
    let g ← eval scope f
    let vs ← evalAll scope [] args
    let ws ← evalNamed scope [] named
    let v ← eval scope rest
    let w ← eval scope restNamed
    let m ← get
    let more ← if rest.isAbsent then some [] else m.items? v
    let moreNamed ← if restNamed.isAbsent then some [] else m.named? w
    match g with
    | .builtin b => b.call? m (vs ++ more) (ws ++ moreNamed)
    | _ => failure

def evalAll (scope : Scope) (done : List Value) : List Term → Action (List Value)
  | [] => return done.reverse
  | x :: xs => do
    let v ← eval scope x
    evalAll scope (v :: done) xs

def evalEntries (scope : Scope) (done : List Entry) : List (Term × Term) → Action (List Entry)
  | [] => return done
  | (k, v) :: rest => do
    let key ← eval scope k
    let value ← eval scope v
    let entries ← (← get).insert? done key value
    if entries.length = done.length then failure else evalEntries scope entries rest

def evalNamed (scope : Scope) (done : List (Text × Value)) :
    List (Text × Term) → Action (List (Text × Value))
  | [] => return done.reverse
  | (s, x) :: rest => do
    let v ← eval scope x
    evalNamed scope ((s, v) :: done) rest

end

mutual

def assign (scope : Scope) : Term → Value → Action Unit
  | name s, v => Memory.setName s v
  | index x i, v => do
    let w ← eval scope x
    Value.setIndex w (← eval scope i) v
  | list targets, v => do assignAll scope targets (← (← get).items? v)
  | tuple targets, v => do assignAll scope targets (← (← get).items? v)
  | _, _ => failure

def assignAll (scope : Scope) : List Term → List Value → Action Unit
  | [], [] => return
  | x :: xs, v :: vs => do
    assign scope x v
    assignAll scope xs vs
  | _, _ => failure

end

end Term

namespace Step

def targets? : Step → Option (List Text)
  | assign target _ => target.targets?
  | _ => some []

def allNames (p : Text → Bool) : Step → Bool
  | pass => true
  | drop x => x.allNames p
  | assign target x => target.allNames p && x.allNames p
  | update _ x i y => x.allNames p && i.allNames p && y.allNames p

def run (scope : Scope) : Step → Action Unit
  | pass => return
  | drop x => discard (x.eval scope)
  | assign target x => do target.assign scope (← x.eval scope)
  | update o x i y => do
    let v ← x.eval scope
    let w ← i.eval scope
    let old ← Value.index? (← get) v w
    Value.setIndex v w (← Value.update o old (← y.eval scope))

def runAll? (outer : Text → Option Value) (steps : List Step) : Option Memory :=
  match steps.mapM targets? with
  | none => none
  | some targets =>
    let assigned := targets.flatten
    let scope : Scope := ⟨assigned, outer⟩
    if assigned.eraseDups.length = assigned.length ∧ steps.all (Step.allNames scope.knows) then
      ((steps.forM (run scope)).run {}).map (·.2)
    else none

end Step

-- The name under which a program leaves its result.
def result : Text :=
  "rc"

def value? (scope : Text → Option Int) (body : Text) : Option Int :=
  match Step.read? (result ++ '='.toUInt8 :: body ++ ['\n'.toUInt8]) with
  | none => none
  | some steps =>
    let outer (name : Text) : Option Value := ((scope name).map .int).or (Builtin.value? name)
    match Step.runAll? outer steps with
    | none => none
    | some m =>
      match m.names.lookup result with
      | some (.int n) => some n
      | _ => none

end ByteAsm.Expression
