import Apex.Proofs.Walks.Recursion

/-!
# The calls of a walk

The calls that a tree leads to are a list that is read off the tree: the two calls for coming to a
node, the calls for its children, and the two calls for leaving it. A walk makes these calls in
their order, whatever the listener does with them, and stops behind the first one that fails. What
has been called is seen in a journal that the listener keeps.
-/

namespace Apex

variable {σ ε : Type}

/-- A call on a listener. -/
inductive ListenerCall where
  /-- The walk has come to a node of any kind. -/
  | enterEvery (n : Node)
  /-- The walk has come to a node of the given kind. -/
  | enter (kind : NodeKind) (n : Node)
  /-- The walk leaves a node of the given kind. -/
  | exit (kind : NodeKind) (n : Node)
  /-- The walk leaves a node of any kind. -/
  | exitEvery (n : Node)

mutual

/-- The calls that a tree leads to. -/
def Node.calls : Node → List ListenerCall
  | .mk element span children =>
    let n := Node.mk element span children
    [.enterEvery n, .enter n.kind n] ++ Node.callsOf children ++ [.exit n.kind n, .exitEvery n]

/-- The calls that trees lead to, one after another. -/
def Node.callsOf : List Node → List ListenerCall
  | [] => []
  | n :: ns => n.calls ++ Node.callsOf ns

end

namespace Listener

variable (l : Listener σ ε)

/-- Makes a call. -/
def make : ListenerCall → EStateM ε σ Unit
  | .enterEvery n => l.enterEvery n
  | .enter kind n => l.enter kind n
  | .exit kind n => l.exit kind n
  | .exitEvery n => l.exitEvery n

/-- Makes calls one after another, up to the first that fails. -/
def makeAll : List ListenerCall → EStateM ε σ Unit
  | [] => pure ()
  | call :: calls => do
    l.make call
    makeAll calls

/-- A call of which a journal is kept, failed calls included. -/
def note (call : ListenerCall) : EStateM ε (σ × List ListenerCall) Unit := fun (state, made) =>
  match l.make call state with
  | .ok _ state => .ok () (state, made ++ [call])
  | .error e state => .error e (state, made ++ [call])

/-- The listener with a journal of the calls made on it. -/
def journaled : Listener (σ × List ListenerCall) ε where
  enterEvery n := l.note (.enterEvery n)
  enter kind n := l.note (.enter kind n)
  exit kind n := l.note (.exit kind n)
  exitEvery n := l.note (.exitEvery n)

theorem make_journaled (call : ListenerCall) : l.journaled.make call = l.note call := by
  cases call <;> rfl

theorem makeAll_append (calls calls' : List ListenerCall) :
    l.makeAll (calls ++ calls') = (do l.makeAll calls; l.makeAll calls') := by
  induction calls with
  | nil => simp only [List.nil_append, makeAll, pure_bind]
  | cons call calls ih => simp only [List.cons_append, makeAll, ih, bind_assoc]

/-- Either no call fails and all are made, or those up to the first that fails are made and its
error is what remains. -/
theorem makeAll_cases (calls made : List ListenerCall) (state : σ) :
    (∃ after, l.makeAll calls state = .ok () after ∧
      l.journaled.makeAll calls (state, made) = .ok () (after, made ++ calls)) ∨
    ∃ earlier call later before e after,
      calls = earlier ++ call :: later ∧ l.makeAll earlier state = .ok () before ∧
      l.make call before = .error e after ∧ l.makeAll calls state = .error e after ∧
      l.journaled.makeAll calls (state, made) = .error e (after, made ++ (earlier ++ [call])) := by
  induction calls generalizing made state with
  | nil => exact .inl ⟨state, rfl, by rw [List.append_nil]; rfl⟩
  | cons call calls ih =>
    cases step : l.make call state with
    | error e after =>
      have noted : l.journaled.make call (state, made) = .error e (after, made ++ [call]) := by
        rw [make_journaled, note, step]
      refine .inr ⟨[], call, calls, state, e, after, rfl, rfl, step, ?_, ?_⟩
      · simp only [makeAll, bind, EStateM.bind, step]
      · simp only [makeAll, bind, EStateM.bind, noted, List.nil_append]
    | ok _ next =>
      have noted : l.journaled.make call (state, made) = .ok () (next, made ++ [call]) := by
        rw [make_journaled, note, step]
      have onward (rest : List ListenerCall) :
          l.makeAll (call :: rest) state = l.makeAll rest next := by
        simp only [makeAll, bind, EStateM.bind, step]
      have onward' : l.journaled.makeAll (call :: calls) (state, made) =
          l.journaled.makeAll calls (next, made ++ [call]) := by
        simp only [makeAll, bind, EStateM.bind, noted]
      rw [onward, onward']
      rcases ih (made ++ [call]) next with ⟨after, run, journal⟩ |
        ⟨earlier, failing, later, before, e, after, rfl, run, fails, all, journal⟩
      · exact .inl ⟨after, run, by rw [journal, List.append_assoc, List.singleton_append]⟩
      · refine .inr ⟨call :: earlier, failing, later, before, e, after, rfl, ?_, fails, all, ?_⟩
        · rw [onward, run]
        · rw [journal]
          simp only [List.append_assoc, List.cons_append, List.nil_append]

end Listener

mutual

/-- The recursion makes the calls of the tree. -/
theorem Node.traverse_eq_makeAll (l : Listener σ ε) : (n : Node) →
    Node.traverse l n = l.makeAll n.calls
  | .mk element span children => by
    rw [traverse, calls, Listener.makeAll_append, Listener.makeAll_append,
      traverseAll_eq_makeAll l children]
    simp only [Listener.makeAll, Listener.make, Listener.arrive, Listener.leave, bind_assoc,
      bind_pure_unit]

theorem Node.traverseAll_eq_makeAll (l : Listener σ ε) : (ns : List Node) →
    Node.traverseAll l ns = l.makeAll (Node.callsOf ns)
  | [] => rfl
  | n :: ns => by
    rw [traverseAll, callsOf, Listener.makeAll_append, traverse_eq_makeAll l n,
      traverseAll_eq_makeAll l ns]

end

theorem Node.walk_eq_makeAll (n : Node) (l : Listener σ ε) : n.walk l = l.makeAll n.calls := by
  rw [walk_eq_traverse, traverse_eq_makeAll]

/-- A walk makes the calls of its tree in their order, each for the node's own kind. If none of them
fails all are made. Otherwise the walk ends with the error of the first that fails, as that call has
given it, and no call is made behind it. -/
theorem Node.walk_calls (n : Node) (l : Listener σ ε) (state : σ) :
    (∃ after, l.makeAll n.calls state = .ok () after ∧ n.walk l state = .ok () after ∧
      n.walk l.journaled (state, []) = .ok () (after, n.calls)) ∨
    ∃ earlier call later before e after,
      n.calls = earlier ++ call :: later ∧ l.makeAll earlier state = .ok () before ∧
      l.make call before = .error e after ∧ n.walk l state = .error e after ∧
      n.walk l.journaled (state, []) = .error e (after, earlier ++ [call]) := by
  rw [walk_eq_makeAll, walk_eq_makeAll]
  rcases l.makeAll_cases n.calls [] state with ⟨after, run, journal⟩ |
    ⟨earlier, call, later, before, e, after, split, run, fails, all, journal⟩
  · exact .inl ⟨after, run, run, journal⟩
  · exact .inr ⟨earlier, call, later, before, e, after, split, run, fails, all, journal⟩

end Apex
