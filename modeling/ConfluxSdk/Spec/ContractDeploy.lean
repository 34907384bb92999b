import ConfluxSdk.ForStd.Polling
import ConfluxSdk.Native.Contract
import ConfluxSdk.Spec.TransactionSign

/-!
# Sending transactions and deploying contracts

A transaction without a signature is completed, signed for what it then contains, and sent.
`DeployContract` asks for the transaction afterwards, until the node knows what became of it.

## Key results

- `SendingClient.sendTransaction_iff`: when a transaction is sent, and what the node gets
- `SendingClient.deployLoop_ends_iff`: when the loop of a deployment ends
- `deploys_iff`: when a deployment returns, and what
- `transacts_iff`: the same for a call of a contract's function by a transaction
-/

namespace ConfluxSdk

open Polling (poll FirstAt)

private theorem mapError_eq_ok_iff {ε ε' α : Type} {x : Except ε α} {f : ε → ε'} {a : α} :
    x.mapError f = .ok a ↔ x = .ok a := by
  cases x with
  | error err =>
    constructor
    · intro h
      cases h
    · intro h
      cases h
  | ok b =>
    constructor
    · intro h
      rw [Except.ok.inj h]
    · intro h
      rw [Except.ok.inj h]
      rfl

private theorem bytes_eq_of_toList {a b : Bytes} (h : a.toList = b.toList) : a = b := by
  cases a
  cases b
  cases h
  rfl

theorem JsonRpcClient.applyDefault_frame {cl : JsonRpcClient} {t t' : TransactionBase}
    (h : cl.applyUnsignedTransactionDefault t = (t', .ok ())) :
    t' = { t with
      m_nonce := t'.m_nonce
      m_chainId := t'.m_chainId
      m_gasPrice := t'.m_gasPrice
      m_epochHeight := t'.m_epochHeight
      m_gas := t'.m_gas
      m_storageLimit := t'.m_storageLimit } := by
  obtain ⟨t₁, hothers, hgas⟩ := othersFilled_of_ok h
  have hframe := hothers.frame
  rcases fillGas_ok hgas with ⟨rfl, -, -⟩ | ⟨rfl, -, -⟩ | ⟨-, estimate, -, rfl⟩
  · rw [hframe]
  · rw [hframe]
  · rw [hframe]

theorem JsonRpcClient.applyDefault_nonce {cl : JsonRpcClient} {t t' : TransactionBase}
    {secret : FixedHash 32} (h : cl.applyUnsignedTransactionDefault t = (t', .ok ()))
    (hnonce : t.m_nonce = Invalid256) (hsecret : t.m_secret = secret) :
    cl.cfx_getNextNonce (secret2CfxAddr cl.toKeyDerivation secret
      cl.m_networkID).getVerboseBase32Address = .ok t'.m_nonce := by
  subst hsecret
  obtain ⟨t₁, hothers, hgas⟩ := othersFilled_of_ok h
  have hkept : t'.m_nonce = t₁.m_nonce := by
    rcases fillGas_ok hgas with ⟨rfl, -, -⟩ | ⟨rfl, -, -⟩ | ⟨-, estimate, -, rfl⟩
    · rfl
    · rfl
    · rfl
  rw [hkept]
  exact hothers.nonceFilled hnonce

/-! ### Signing -/

namespace TransactionBase

variable {c : Crypto} {t : TransactionBase}

/-- A transaction that had no signature is signed for what it contains. -/
theorem signedFor_of_signTransaction (hvrs : t.m_vrs = none) {out : List UInt8}
    (h : (t.signTransaction c).2 = .ok out) : SignedFor c t out := by
  cases hsecret : t.m_secret.toBool with
  | false =>
    rw [signTransaction_empty hsecret] at h
    cases h
  | true =>
    cases hvalid : (c.sign t.m_secret (c.sha3 t.unsignedItem.encode)).isValid with
    | false =>
      obtain ⟨err, herr, -⟩ := rlp_of_none hvrs
      rw [signTransaction_invalid hsecret hvalid, herr] at h
      cases h
    | true =>
      rw [signTransaction_valid hsecret hvalid] at h
      rw [← Except.ok.inj h]
      exact signedFor_signedItems t

end TransactionBase

namespace SendingClient

variable (cl : SendingClient)

/-! ### Sending -/

/-- The transaction `t` was completed to `t'` and sent as `raw`, and the node replied with
    the hash. -/
structure Submits (t t' : TransactionBase) (raw : List UInt8) (transHash : Str) : Prop where
  completed : cl.applyUnsignedTransactionDefault t = (t', .ok ())
  signs : (t'.signTransaction cl.toCrypto).2 = .ok raw
  signed : TransactionBase.SignedFor cl.toCrypto t' raw
  sent : cl.cfx_sendRawTransaction raw = .ok transHash

variable {cl} {t : TransactionBase} {transHash : Str}

/-- A transaction without a signature is sent exactly when it can be completed and signed and
    the node takes it, and what the node gets is signed for what it contains. -/
theorem sendTransaction_iff (hvrs : t.m_vrs = none) :
    (cl.sendTransaction t).2 = .ok transHash ↔ ∃ t' raw, cl.Submits t t' raw transHash := by
  constructor
  · intro h
    rw [sendTransaction] at h
    cases happly : cl.applyUnsignedTransactionDefault t with
    | mk t' completed =>
    cases completed with
    | error err =>
      rw [happly] at h
      cases h
    | ok u =>
      -- What is completed still has no signature.
      have hvrs' : t'.m_vrs = none := by
        rw [JsonRpcClient.applyDefault_frame happly]
        exact hvrs
      cases hsign : t'.signTransaction cl.toCrypto with
      | mk t₂ signed =>
      rw [happly] at h
      dsimp only at h
      rw [hsign] at h
      cases signed with
      | error err => cases h
      | ok raw =>
        have hraw : (t'.signTransaction cl.toCrypto).2 = .ok raw := by rw [hsign]
        exact ⟨t', raw, happly, hraw, TransactionBase.signedFor_of_signTransaction hvrs' hraw,
          mapError_eq_ok_iff.mp h⟩
  · rintro ⟨t', raw, hcompleted, hsigns, -, hsent⟩
    rw [sendTransaction, hcompleted]
    dsimp only
    cases hsign : t'.signTransaction cl.toCrypto with
    | mk t₂ signed =>
    rw [hsign] at hsigns
    dsimp only at hsigns
    rw [hsigns]
    exact mapError_eq_ok_iff.mpr hsent

/-! ### Asking for the transaction -/

variable (cl) (transHash) in
/-- What the loop of `DeployContract` ends with the `i`-th time, if it ends then. -/
def verdict (i : Nat) : Option (Except ClientError TransactionByHashResult) :=
  match cl.cfx_getTransactionByHash transHash i with
  | .error err => some (.error err)
  | .ok res => if res.status = .skippedOrNotPacked then none else some (.ok res)

theorem deployLoop_eq (fuel i : Nat) :
    cl.deployLoop transHash fuel i = poll (cl.verdict transHash) fuel i := by
  induction fuel generalizing i with
  | zero => rfl
  | succ fuel ih =>
    rw [deployLoop, poll, verdict]
    cases cl.cfx_getTransactionByHash transHash i with
    | error err => rfl
    | ok res => by_cases hstatus : res.status = .skippedOrNotPacked <;> simp [hstatus, ih]

/-- The node does not know the `i`-th time what became of the transaction. -/
def Pending (cl : SendingClient) (transHash : Str) (i : Nat) : Prop :=
  ∃ res, cl.cfx_getTransactionByHash transHash i = .ok res ∧ res.status = .skippedOrNotPacked

theorem verdict_eq_none_iff {i : Nat} :
    cl.verdict transHash i = none ↔ cl.Pending transHash i := by
  rw [verdict, Pending]
  cases cl.cfx_getTransactionByHash transHash i with
  | error err => simp
  | ok res => simp

theorem verdict_eq_ok_iff {i : Nat} {res : TransactionByHashResult} :
    cl.verdict transHash i = some (.ok res) ↔
      cl.cfx_getTransactionByHash transHash i = .ok res ∧ res.status ≠ .skippedOrNotPacked := by
  rw [verdict]
  cases cl.cfx_getTransactionByHash transHash i with
  | error err => simp
  | ok res' =>
    by_cases hstatus : res'.status = .skippedOrNotPacked
    · simp only [hstatus, if_true]
      constructor
      · intro h
        cases h
      · rintro ⟨hres, hnot⟩
        rw [← Except.ok.inj hres] at hnot
        exact absurd hstatus hnot
    · simp only [hstatus, if_false]
      constructor
      · intro h
        cases h
        exact ⟨rfl, hstatus⟩
      · rintro ⟨hres, -⟩
        rw [Except.ok.inj hres]

/-- The loop returns the first reply that is not pending, if there is no error before. -/
theorem deployLoop_ok_iff {fuel : Nat} {res : TransactionByHashResult} :
    cl.deployLoop transHash fuel 0 = some (.ok res) ↔
      ∃ n < fuel, (∀ m < n, cl.Pending transHash m) ∧
        cl.cfx_getTransactionByHash transHash n = .ok res ∧ res.status ≠ .skippedOrNotPacked := by
  rw [deployLoop_eq, Polling.poll_eq_some_iff, Nat.zero_add]
  constructor
  · rintro ⟨n, hn, hfirst⟩
    exact ⟨n, hn, fun m hm => verdict_eq_none_iff.mp (hfirst.before m (Nat.zero_le m) hm),
      verdict_eq_ok_iff.mp hfirst.answer⟩
  · rintro ⟨n, hn, hpending, hres⟩
    exact ⟨n, hn, Nat.zero_le n, verdict_eq_ok_iff.mpr hres,
      fun m _ hm => verdict_eq_none_iff.mpr (hpending m hm)⟩

/-- The loop has no other end: it returns or throws exactly when the node once does not reply
    that the transaction is pending. -/
theorem deployLoop_ends_iff :
    (∃ fuel reply, cl.deployLoop transHash fuel 0 = some reply) ↔ ∃ n, ¬ cl.Pending transHash n := by
  simp only [deployLoop_eq, Polling.poll_ends_iff]
  constructor
  · rintro ⟨n, reply, -, hreply⟩
    refine ⟨n, fun hpending => ?_⟩
    rw [verdict_eq_none_iff.mpr hpending] at hreply
    cases hreply
  · rintro ⟨n, hnot⟩
    cases hverdict : cl.verdict transHash n with
    | none => exact absurd (verdict_eq_none_iff.mp hverdict) hnot
    | some reply => exact ⟨n, reply, Nat.zero_le n, hverdict⟩

theorem deployContract_ok_iff {fuel : Nat} {result : ContractDeployResult} :
    (cl.deployContract t fuel).map Prod.snd = some (.ok result) ↔
      ∃ transHash, (cl.sendTransaction t).2 = .ok transHash ∧
        ∃ res, cl.deployLoop transHash fuel 0 = some (.ok res) ∧ result = cl.deployResult res := by
  rw [deployContract]
  cases cl.sendTransaction t with
  | mk t' sent =>
  cases sent with
  | error err => simp
  | ok transHash =>
    dsimp only
    cases hloop : cl.deployLoop transHash fuel 0 with
    | none => simp [hloop]
    | some reply =>
      cases reply with
      | error err => simp [hloop, Except.map]
      | ok res => simp [hloop, Except.map, eq_comm]

/-- A contract is returned for a success only, at the address in the reply. -/
theorem deployedContract_iff {res : TransactionByHashResult} {c : Contract} :
    (cl.deployResult res).deployedContract = some c ↔
      res.status = .success ∧ c = ⟨cl, res.contractCreated⟩ := by
  rw [deployResult]
  by_cases hsuccess : res.status = .success
  · rw [if_pos hsuccess]
    simp [hsuccess, eq_comm]
  · rw [if_neg hsuccess]
    simp [hsuccess]

end SendingClient

/-! ### Deploying -/

/-- The creation of a contract with the given payload: the nonce is the next one of the account
    of the secret, and what is sent is a creation with the payload. After so many pending
    replies the node knows what became of it. -/
structure Deployment (cl : SendingClient) (payload : Bytes) (secret : FixedHash 32)
    (t : TransactionBase) (raw : List UInt8) (transHash : Str) (n : Nat)
    (res : TransactionByHashResult) : Prop where
  submits : cl.Submits (.ofContractCreation payload secret) t raw transHash
  creation : t.m_type = .contractCreation ∧ t.m_data = payload ∧ t.m_value = 0 ∧ t.m_secret = secret
  nonce : cl.cfx_getNextNonce (secret2CfxAddr cl.toKeyDerivation secret
    cl.m_networkID).getVerboseBase32Address = .ok t.m_nonce
  pending : ∀ m < n, cl.Pending transHash m
  reply : cl.cfx_getTransactionByHash transHash n = .ok res
  decided : res.status ≠ .skippedOrNotPacked

/-- A deployment returns exactly when the creation is sent and the node once knows what became
    of it, without an error before. A contract is returned if that was a success, at the
    address that is in the reply. -/
theorem deploys_iff (cl : SendingClient) (contractBytes constructor_abi : List UInt8)
    (secret : FixedHash 32) (result : ContractDeployResult) :
    (∃ fuel, cl.deployCode contractBytes constructor_abi secret fuel = some (.ok result)) ↔
      ∃ (h : (contractBytes ++ constructor_abi).length < 2 ^ 63) (t : TransactionBase)
        (raw : List UInt8) (transHash : Str) (n : Nat) (res : TransactionByHashResult),
        Deployment cl ⟨contractBytes ++ constructor_abi, h⟩ secret t raw transHash n res ∧
        result = cl.deployResult res ∧
        ∀ c, result.deployedContract = some c ↔
          res.status = .success ∧ c = ⟨cl, res.contractCreated⟩ := by
  constructor
  · rintro ⟨fuel, hresult⟩
    rw [SendingClient.deployCode] at hresult
    split at hresult
    · rename_i h
      obtain ⟨transHash, hsent, hloop⟩ := SendingClient.deployContract_ok_iff.mp hresult
      obtain ⟨res, hres, rfl⟩ := hloop
      obtain ⟨n, -, hpending, hreply, hdecided⟩ := SendingClient.deployLoop_ok_iff.mp hres
      obtain ⟨t, raw, hsubmits⟩ := (SendingClient.sendTransaction_iff rfl).mp hsent
      refine ⟨h, t, raw, transHash, n, res, ?_, rfl, fun c => SendingClient.deployedContract_iff⟩
      exact {
        submits := hsubmits
        creation := by
          rw [JsonRpcClient.applyDefault_frame hsubmits.completed]
          exact ⟨rfl, rfl, rfl, rfl⟩
        nonce := JsonRpcClient.applyDefault_nonce hsubmits.completed rfl rfl
        pending := hpending
        reply := hreply
        decided := hdecided }
    · -- The payload has more bytes than a vector can have.
      cases hresult
  · rintro ⟨h, t, raw, transHash, n, res, hdeployment, rfl, -⟩
    have hsent := (SendingClient.sendTransaction_iff rfl).mpr ⟨t, raw, hdeployment.submits⟩
    have hloop : cl.deployLoop transHash (n + 1) 0 = some (.ok res) :=
      SendingClient.deployLoop_ok_iff.mpr ⟨n, Nat.lt_succ_self n, hdeployment.pending,
        hdeployment.reply, hdeployment.decided⟩
    -- One more time than there are pending replies.
    refine ⟨n + 1, ?_⟩
    rw [SendingClient.deployCode, dif_pos h]
    exact SendingClient.deployContract_ok_iff.mpr ⟨transHash, hsent, res, hloop, rfl⟩

/-! ### Calling a function by a transaction -/

/-- A function of a contract is called exactly when the message call is sent to it whose data
    are the encoding of the function. -/
theorem transacts_iff (c : Contract) (keccak256 : Abi.Function.Keccak) (func : Abi.Function)
    (secret : FixedHash 32) (value : U256) (transHash : Str) :
    c.sendTransaction keccak256 func secret value = .ok transHash ↔
      ∃ (t₀ t : TransactionBase) (raw : List UInt8), c.client.Submits t₀ t raw transHash ∧
        t₀.m_data.toList = func.encode keccak256 [] ∧
        t₀ = (TransactionBase.ofMessageCall c.address value secret).withData t₀.m_data ∧
        t.m_type = .messageCall ∧ t.m_receiveAddress = c.address.toEthCommonAddr ∧
        t.m_value = value ∧ t.m_data = t₀.m_data ∧ t.m_secret = secret := by
  rw [Contract.sendTransaction]
  constructor
  · intro hsend
    split at hsend
    · rename_i h
      rw [Contract.sendData] at hsend
      obtain ⟨t, raw, hsubmits⟩ := (SendingClient.sendTransaction_iff rfl).mp hsend
      refine ⟨_, t, raw, hsubmits, rfl, rfl, ?_⟩
      rw [JsonRpcClient.applyDefault_frame hsubmits.completed]
      exact ⟨rfl, rfl, rfl, rfl, rfl⟩
    · cases hsend
  · rintro ⟨t₀, t, raw, hsubmits, hdata, ht₀, -⟩
    have h : (func.encode keccak256 []).length < 2 ^ 63 := hdata ▸ t₀.m_data.size_lt
    have hpayload : (⟨func.encode keccak256 [], h⟩ : Bytes) = t₀.m_data := bytes_eq_of_toList hdata.symm
    rw [dif_pos h, Contract.sendData, hpayload, ← ht₀]
    refine (SendingClient.sendTransaction_iff ?_).mpr ⟨t, raw, hsubmits⟩
    rw [ht₀]
    rfl

end ConfluxSdk
