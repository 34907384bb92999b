import ConfluxSdk.Native.Account

/-!
# Threads on one account manager

The methods of `AccountManager` lock the mutex `mtx` while they work, so that threads
only take turns between critical sections. Every method is one section except
`GetDefault`: it locks once to see whether the map is empty and once more, in `List`, to
read the addresses, of which it returns the first one.

Any number of threads takes part; `T` names them.
-/

namespace ConfluxSdk.AccountManager

/-- Where a thread is: in no method, or in `GetDefault`, between its two sections. -/
inductive Place where
  | outside | inGetDefault
  deriving DecidableEq, Repr

/-- The threads of a program and the manager they share. -/
structure Threads (T : Type) where
  manager : AccountManager
  place : T → Place

/-- The first section of a method. -/
inductive Entry where
  | call (op : Call)
  | list
  | getDefault

/-- The section a thread runs: the first one of a method, or the second one of
    `GetDefault`. -/
inductive Turn (T : Type) where
  | enter (t : T) (e : Entry)
  | resume (t : T)

/-- What comes of `GetDefault`: an address, or `List()[0]` of an empty list, which is
    undefined. -/
inductive DefaultOutcome where
  | returned (a : Address)
  | indexedEmpty
  deriving DecidableEq, Repr

variable {T : Type} [DecidableEq T] (env : StoreEnv) (s : Threads T)

/-- A turn, and what `GetDefault` comes to when the turn completes it. A thread inside
    `GetDefault` enters nothing else, and one outside has nothing to resume. -/
def turn : Turn T → Threads T × Option DefaultOutcome
  | .enter t e =>
    match s.place t, e with
    | .inGetDefault, _ => (s, none)
    | .outside, .call op => ({ s with manager := s.manager.call env op }, none)
    | .outside, .list => (s, none)
    | .outside, .getDefault =>
      if s.manager.cfxAddressDic.keys = [] then (s, some (.returned Address.default))
      else ({ s with place := Function.update s.place t .inGetDefault }, none)
  | .resume t =>
    match s.place t with
    | .outside => (s, none)
    | .inGetDefault =>
      ({ s with place := Function.update s.place t .outside },
        some (match s.manager.list with
          | [] => .indexedEmpty
          | a :: _ => .returned a))

/-- The threads after a turn. -/
def afterTurn (s : Threads T) (a : Turn T) : Threads T := (turn env s a).1

/-- What `GetDefault` comes to in a turn. -/
def completed (s : Threads T) (a : Turn T) : Option DefaultOutcome := (turn env s a).2

end ConfluxSdk.AccountManager
