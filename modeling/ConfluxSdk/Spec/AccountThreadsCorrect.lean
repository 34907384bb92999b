import ConfluxSdk.Native.AccountThreads
import ConfluxSdk.Spec.AccountCorrect

/-!
# GetDefault among other threads

`GetDefault` looks whether there is an address, and reads the first one in a section of
its own. Other threads take turns between the two; a `Delete` of the only address there
leaves an empty list to read the first address of.

## Key results

- `call_list_ne_nil`: which calls leave an address
- `getDefault_safe`: `GetDefault` is right in every run without such a `Delete`
-/

namespace ConfluxSdk

open Runs (run Along)

namespace AccountManager

variable {env : StoreEnv} {m : AccountManager}

/-! ### Calls that leave an address -/

/-- A call does not delete the only address. -/
def SparesLast (env : StoreEnv) (m : AccountManager) : Call → Prop
  | .delete addr passphrase => (m.delete env addr passphrase).2 = true → 1 < m.list.length
  | _ => True

/-- An address is left by every other call. -/
theorem call_list_ne_nil {op : Call} (hop : SparesLast env m op) (h : m.list ≠ []) :
    (m.call env op).list ≠ [] := by
  cases op with
  -- Only `Delete` takes an address away.
  | create passphrase seed r random => exact OrderedMap.keys_insert_ne_nil _ _ _
  | importPrivateKey secret_key passphrase r random =>
    simp only [call, importPrivateKey]
    split
    · exact h
    · exact OrderedMap.keys_insert_ne_nil _ _ _
  | importKeystore content =>
    simp only [call, importKeystore]
    split
    · exact OrderedMap.keys_insert_ne_nil _ _ _
    · exact h
  | getSecret addr passphrase =>
    simp only [call, getSecret]
    split <;> exact h
  | updatePassphrase addr passphrase newPassphrase random =>
    simp only [call, updatePassphrase]
    split <;> exact h
  | delete addr passphrase =>
    simp only [SparesLast, delete] at hop
    simp only [call, delete]
    cases hfind : m.cfxAddressDic.find? addr with
    | none => exact h
    | some uuid =>
      rw [hfind] at hop
      dsimp only at hop ⊢
      split
      · rename_i hkey
        rw [if_pos hkey] at hop
        -- The address is taken away, and by `hop` another one is left.
        exact OrderedMap.keys_erase_ne_nil addr (hop rfl)
      · exact h

/-! ### Runs -/

variable {T : Type} [DecidableEq T]

/-- While a thread is inside `GetDefault`, no other one deletes the only address. -/
def KeepsListed (env : StoreEnv) (s : Threads T) : Turn T → Prop
  | .enter t (.call op) =>
    s.place t = .outside → (∃ t', s.place t' = .inGetDefault) → SparesLast env s.manager op
  | _ => True

/-- A thread inside `GetDefault` finds an address. -/
def Guarded (s : Threads T) : Prop := ∀ t, s.place t = .inGetDefault → s.manager.list ≠ []

theorem afterTurn_guarded {s : Threads T} {a : Turn T} (hs : Guarded s)
    (ha : KeepsListed env s a) : Guarded (afterTurn env s a) := by
  cases a with
  | enter t e =>
    cases hplace : s.place t with
    | inGetDefault =>
      simp only [afterTurn, turn, hplace]
      exact hs
    | outside =>
      cases e with
      | call op =>
        simp only [afterTurn, turn, hplace]
        intro t' ht'
        exact call_list_ne_nil (ha hplace ⟨t', ht'⟩) (hs t' ht')
      | list =>
        simp only [afterTurn, turn, hplace]
        exact hs
      | getDefault =>
        simp only [afterTurn, turn, hplace]
        split
        · exact hs
        · rename_i hne
          exact fun _ _ => hne
  | resume t =>
    cases hplace : s.place t with
    | outside =>
      simp only [afterTurn, turn, hplace]
      exact hs
    | inGetDefault =>
      simp only [afterTurn, turn, hplace]
      -- The thread that goes out had found an address.
      exact fun _ _ => hs t hplace

/-- What `GetDefault` may come to while the manager is as it is. -/
def DefaultOutcome.Right (m : AccountManager) (d : DefaultOutcome) : Prop :=
  (d = .returned Address.default ∧ m.list = []) ∨ ∃ a ∈ m.list, d = .returned a

theorem completed_right {s : Threads T} {a : Turn T} (hs : Guarded s) {d : DefaultOutcome}
    (hd : completed env s a = some d) : d.Right s.manager := by
  cases a with
  | enter t e =>
    cases hplace : s.place t with
    | inGetDefault => simp [completed, turn, hplace] at hd
    | outside =>
      cases e with
      | call op => simp [completed, turn, hplace] at hd
      | list => simp [completed, turn, hplace] at hd
      | getDefault =>
        -- `GetDefault` returns at once only if the list is empty.
        simp only [completed, turn, hplace] at hd
        split at hd
        · rename_i hempty
          exact .inl ⟨(Option.some.inj hd).symm, hempty⟩
        · cases hd
  | resume t =>
    cases hplace : s.place t with
    | outside => simp [completed, turn, hplace] at hd
    | inGetDefault =>
      simp only [completed, turn, hplace] at hd
      -- The list was not empty when the thread went in, and is not now.
      have hne := hs t hplace
      cases hlist : s.manager.list with
      | nil => exact absurd hlist hne
      | cons a as =>
        rw [hlist] at hd
        exact .inr ⟨a, by simp [hlist], (Option.some.inj hd).symm⟩

/-- In every run from a state with no thread inside `GetDefault`, in which no thread
    deletes the only address while another one is inside, `GetDefault` comes to the null
    address while the map is empty, or to an address that is in the map at that moment. -/
theorem getDefault_safe (env : StoreEnv) (m : AccountManager) {turns : List (Turn T)}
    (hkeeps : Along (afterTurn env) (KeepsListed env) ⟨m, fun _ => .outside⟩ turns)
    {pre : List (Turn T)} {a : Turn T} (hpre : pre ++ [a] <+: turns) {d : DefaultOutcome}
    (hd : completed env (run (afterTurn env) ⟨m, fun _ => .outside⟩ pre) a = some d) :
    d.Right (run (afterTurn env) ⟨m, fun _ => .outside⟩ pre).manager := by
  have hstart : Guarded (⟨m, fun _ => .outside⟩ : Threads T) := fun _ ht => by cases ht
  have hguarded := hkeeps.invariant (fun _ _ hs ha => afterTurn_guarded hs ha) hstart
    ((List.prefix_append pre [a]).trans hpre)
  exact completed_right hguarded hd

/-- One thread alone gets the address that `getDefault` is. -/
theorem getDefault_alone (env : StoreEnv) (m : AccountManager) (t : T) :
    completed env ⟨m, fun _ => .outside⟩ (.enter t .getDefault) =
        some (.returned m.getDefault) ∨
      completed env (afterTurn env ⟨m, fun _ => .outside⟩ (.enter t .getDefault)) (.resume t) =
        some (.returned m.getDefault) := by
  by_cases hempty : m.cfxAddressDic.keys = []
  · have hdefault : m.getDefault = Address.default := by
      rw [getDefault, list, hempty, List.headD_nil]
    exact .inl (by simp only [completed, turn, if_pos hempty, hdefault])
  · obtain ⟨a, as, hlist⟩ := List.exists_cons_of_ne_nil hempty
    have hdefault : m.getDefault = a := by
      rw [getDefault, list, hlist, List.headD_cons]
    refine .inr ?_
    simp only [completed, afterTurn, turn]
    rw [if_neg hempty, hdefault]
    simp only [Function.update_self, list, hlist]

theorem oneAccount_list : oneAccount.list = [keyOneAddress] := by
  have hinsert : ∀ (a : Address) (u : H128),
      ((OrderedMap.empty : OrderedMap Address.orderKey H128).insert a u).keys = [a] :=
    fun _ _ => rfl
  exact hinsert keyOneAddress (.ofNat 16 1)

theorem delete_oneAccount_list :
    (oneAccount.call keyOneEnv (.delete keyOneAddress "one".toList)).list = [] := by
  have herase : ∀ (a : Address) (u : H128),
      (((OrderedMap.empty : OrderedMap Address.orderKey H128).insert a u).erase a).keys = [] := by
    intro a u
    simp [OrderedMap.keys, OrderedMap.erase, OrderedMap.insert, OrderedMap.empty,
      OrderedMap.insertEntry]
  obtain ⟨-, -, -, -, hdic⟩ := delete_done delete_oneAccount
  rw [call, list, hdic]
  exact herase keyOneAddress (.ofNat 16 1)

theorem getDefault_safe_oneAccount :
    (DefaultOutcome.returned keyOneAddress).Right
      (run (afterTurn keyOneEnv) ⟨oneAccount, fun _ : Nat => .outside⟩
        [.enter 0 .getDefault, .enter 1 .list]).manager := by
  have hne : oneAccount.cfxAddressDic.keys ≠ [] := by
    rw [← list, oneAccount_list]
    exact List.cons_ne_nil _ _
  have hkeeps : Along (afterTurn keyOneEnv) (KeepsListed keyOneEnv)
      ⟨oneAccount, fun _ : Nat => .outside⟩
      [.enter 0 .getDefault, .enter 1 .list, .resume 0] :=
    ⟨trivial, trivial, trivial, trivial⟩
  have hreturned : completed keyOneEnv (run (afterTurn keyOneEnv)
      ⟨oneAccount, fun _ : Nat => .outside⟩ [.enter 0 .getDefault, .enter 1 .list]) (.resume 0) =
        some (.returned keyOneAddress) := by
    simp only [run, List.foldl_cons, List.foldl_nil, afterTurn, turn]
    rw [if_neg hne]
    simp [completed, turn, oneAccount_list]
  exact getDefault_safe keyOneEnv oneAccount hkeeps (List.prefix_refl _) hreturned

/-- The only address is deleted between the two sections, and the first address of an
    empty list is read. -/
theorem getDefault_indexes_empty :
    oneAccount.Reachable keyOneEnv ∧
      completed keyOneEnv (run (afterTurn keyOneEnv) ⟨oneAccount, fun _ : Nat => .outside⟩
        [.enter 0 .getDefault, .enter 1 (.call (.delete keyOneAddress "one".toList))])
          (.resume 0) = some .indexedEmpty := by
  refine ⟨oneAccount_reachable, ?_⟩
  have hne : oneAccount.cfxAddressDic.keys ≠ [] := by
    rw [← list, oneAccount_list]
    exact List.cons_ne_nil _ _
  have hdeleted := delete_oneAccount_list
  generalize Call.delete keyOneAddress "one".toList = op at hdeleted
  simp only [run, List.foldl_cons, List.foldl_nil, afterTurn, turn]
  rw [if_neg hne]
  simp [completed, turn, hdeleted]

end AccountManager

end ConfluxSdk
