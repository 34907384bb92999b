import ConfluxSdk.Spec.AccountKeys
import ConfluxSdk.Spec.ClientDefaults
import ConfluxSdk.Spec.TransactionCache

/-!
# What is signed

The recipient of a message call is kept twice: `streamRLP` writes one of the two members,
the setters change the other. A signature that is not valid is not stored, and what
is streamed then has the signature that was there before.

## Key results

- `recipient_agrees_iff`: when the recipient shown is the recipient signed, along a run
- `signed_for_content_iff`: when every raw transaction is signed for what it contains
-/

namespace ConfluxSdk

open LengthPrefix (Item)
open Runs (run Along)

namespace TransactionBase

/-! ### The recipient -/

/-- The address a call gives a transaction, if it is one that sets the recipient. -/
def Call.recipient : Call → Option Address
  | .withReceive addr => some addr
  | .withTo addr => some addr
  | _ => none

/-- A call leaves the type and the streamed recipient, and the reported one unless the
    call sets it. -/
theorem call_recipient (c : Crypto) (t : TransactionBase) (op : Call) :
    (t.call c op).m_type = t.m_type ∧ (t.call c op).m_receiveAddress = t.m_receiveAddress ∧
      (t.call c op).to_cfx = op.recipient.getD t.to_cfx := by
  cases op with
  | sha3 sig =>
    obtain ⟨h, hframe⟩ := sha3_frame (c := c) t sig
    rw [call, hframe]
    exact ⟨rfl, rfl, rfl⟩
  | sender =>
    obtain ⟨a, hframe⟩ := sender_frame (c := c) t
    rw [call, hframe]
    exact ⟨rfl, rfl, rfl⟩
  | signTransaction =>
    obtain ⟨vrs, hframe⟩ := signTransaction_frame (c := c) t
    rw [call, hframe]
    exact ⟨rfl, rfl, rfl⟩
  | signTransactionWithSecret secret =>
    obtain ⟨vrs, hframe⟩ := signTransaction_frame (c := c) { t with m_secret := secret }
    rw [call, signTransactionWithSecret, hframe]
    exact ⟨rfl, rfl, rfl⟩
  | _ => exact ⟨rfl, rfl, rfl⟩

/-- The recipient that is signed is the one the getters report and the estimate sends: a
    strict reader finds its bytes in the stream. -/
structure RecipientAgrees (cl : JsonRpcClient) (t : TransactionBase) : Prop where
  streamed : ∃ out r, t.streamRLP .empty .withoutSignature = .ok ⟨out, []⟩ ∧
    RLP.new out RLP.veryStrict = .ok r ∧ r.readHash 3 20 = .ok t.to_cfx.toEthCommonAddr.bytes
  shown : t.receive_cfx = t.to_cfx
  sent : (cl.estimateParam t).toAddr = some t.to_cfx.getVerboseBase32Address

theorem recipientAgrees_iff (cl : JsonRpcClient) {t : TransactionBase}
    (htype : t.m_type = .messageCall) :
    RecipientAgrees cl t ↔ t.m_receiveAddress = t.to_cfx.toEthCommonAddr := by
  obtain ⟨hnew, hreads⟩ := unsignedItem_reads t
  obtain ⟨r, haccesses, hfields⟩ := hreads []
  obtain rfl := Except.ok.inj haccesses
  have hread := hfields.receive htype
  constructor
  · intro hagrees
    obtain ⟨⟨out, r, hstream, hnew', hto⟩, _, _⟩ := hagrees
    rw [t.streamRLP_unsigned] at hstream
    cases hstream
    rw [hnew] at hnew'
    cases hnew'
    rw [hread] at hto
    exact FixedHash.eq_of_bytes (Except.ok.inj hto)
  · intro heq
    refine ⟨⟨_, _, t.streamRLP_unsigned, hnew, ?_⟩, rfl, ?_⟩
    · rw [hread, heq]
    · rw [JsonRpcClient.estimateParam, isCreation, htype]
      rfl

/-- The states of a run agree exactly when the first one does and every recipient that is
    set has the streamed bytes. -/
theorem run_recipientAgrees_iff (c : Crypto) (cl : JsonRpcClient) {t : TransactionBase}
    (htype : t.m_type = .messageCall) (calls : List Call) :
    (∀ pre, pre <+: calls → RecipientAgrees cl (run (call c) t pre)) ↔
      t.m_receiveAddress = t.to_cfx.toEthCommonAddr ∧
      ∀ op ∈ calls, ∀ addr, op.recipient = some addr →
        addr.toEthCommonAddr = t.m_receiveAddress := by
  induction calls generalizing t with
  | nil => simp [run, recipientAgrees_iff cl htype]
  | cons op calls ih =>
    obtain ⟨htype', hstreamed, hto⟩ := call_recipient c t op
    rw [Runs.forall_run_cons, recipientAgrees_iff cl htype, ih (htype'.trans htype), hstreamed, hto,
      List.forall_mem_cons]
    -- The call either sets the recipient or leaves the one that agrees already.
    cases op.recipient with
    | none => simp
    | some addr => simp [eq_comm]

end TransactionBase

open TransactionBase in
/-- In a run from a message call, the recipient shown is the recipient signed in every
    state exactly when every call that sets it gives the bytes of the destination. -/
theorem recipient_agrees_iff (c : Crypto) (cl : JsonRpcClient) (dest : Address) (value : U256)
    (secret : FixedHash 32) (calls : List Call) :
    (∀ pre, pre <+: calls →
      RecipientAgrees cl (run (TransactionBase.call c) (ofMessageCall dest value secret) pre)) ↔
    ∀ op ∈ calls, ∀ addr, op.recipient = some addr →
      addr.toEthCommonAddr = dest.toEthCommonAddr := by
  rw [run_recipientAgrees_iff c cl rfl]
  exact and_iff_right rfl

/-- The address of an account on the test network. -/
def sampleRecipient (n : Nat) : Address := getCfxUserAddress (.ofNat 20 n) NetworkType.testnetID

theorem isValid_sampleRecipient {n : Nat} (hn : n < 3) : (sampleRecipient n).isValid = true := by
  rw [sampleRecipient, getCfxUserAddress_eq, Address.isValid_iff]
  revert n
  decide

/-- A transfer to an account whose recipient is set to another account afterwards is still
    signed for the first. -/
theorem withTo_not_signed :
    (sampleRecipient 1).isValid = true ∧ (sampleRecipient 2).isValid = true ∧
      ¬ TransactionBase.RecipientAgrees sampleClient
        (run (TransactionBase.call keyOneCrypto)
          (.ofMessageCall (sampleRecipient 1) 1000 (.zero 32)) [.withTo (sampleRecipient 2)]) := by
  have hdiffer : (sampleRecipient 1).toEthCommonAddr ≠ (sampleRecipient 2).toEthCommonAddr := by
    rw [sampleRecipient, sampleRecipient, getCfxUserAddress_eq, getCfxUserAddress_eq]
    decide
  have hset : ∀ dest addr : Address, TransactionBase.RecipientAgrees sampleClient
      (run (TransactionBase.call keyOneCrypto) (.ofMessageCall dest 1000 (.zero 32))
        [.withTo addr]) → dest.toEthCommonAddr = addr.toEthCommonAddr :=
    fun dest addr hagrees => (TransactionBase.recipientAgrees_iff sampleClient rfl).mp hagrees
  exact ⟨isValid_sampleRecipient (by decide), isValid_sampleRecipient (by decide),
    fun hagrees => hdiffer (hset _ _ hagrees)⟩

/-! ### The signature -/

namespace TransactionBase

variable (c : Crypto)

/-- `dev::sign` produces a valid signature with the secret over the nine fields. -/
def CanSign (t : TransactionBase) : Prop :=
  ∃ out, t.rlp .withoutSignature = .ok out ∧ (c.sign t.m_secret (c.sha3 out)).isValid = true

/-- The bytes are read back as the nine fields and a signature, which is the one with the
    secret over the hash of the first item. -/
def SignedFor (t : TransactionBase) (out : List UInt8) : Prop :=
  ∃ r item r', RLP.new out RLP.veryStrict = .ok r ∧ r.getItem 0 = .ok (item, r') ∧
    ReadsSigned r t (c.sign t.m_secret (c.sha3 item.m_data))

/-- What `SignTransaction` returns is signed for what it contains, and without a valid
    signature it throws. The undefined access to an empty `m_vrs` reports nothing. -/
structure Signs (t : TransactionBase) : Prop where
  returned : ∀ out, (t.signTransaction c).2 = .ok out → SignedFor c t out
  reported : ¬ CanSign c t → ∃ text, (t.signTransaction c).2 = .error (.thrown text)

variable {c}

theorem signTransaction_empty {t : TransactionBase} (hsecret : t.m_secret.toBool = false) :
    t.signTransaction c = (t, .error (.thrown "secret is empty!".toList)) := by
  rw [signTransaction, hsecret, Bool.not_false, if_pos rfl]

/-- A valid signature is stored and streamed. -/
theorem signTransaction_valid {t : TransactionBase} (hsecret : t.m_secret.toBool = true)
    (hvalid : (c.sign t.m_secret (c.sha3 t.unsignedItem.encode)).isValid = true) :
    (t.signTransaction c).2 =
      .ok (Item.list (t.signedItems (c.sign t.m_secret (c.sha3 t.unsignedItem.encode)))).encode := by
  rw [signTransaction, hsecret, Bool.not_true, if_neg Bool.false_ne_true, sign, sha3_without]
  dsimp only
  rw [if_pos hvalid]
  exact rlp_signed _ rfl

/-- An invalid signature is dropped, and the one that was there is streamed. -/
theorem signTransaction_invalid {t : TransactionBase} (hsecret : t.m_secret.toBool = true)
    (hvalid : (c.sign t.m_secret (c.sha3 t.unsignedItem.encode)).isValid = false) :
    t.signTransaction c = (t, t.rlp .withSignature) := by
  rw [signTransaction, hsecret, Bool.not_true, if_neg Bool.false_ne_true, sign, sha3_without]
  dsimp only
  rw [hvalid, if_neg Bool.false_ne_true]

theorem canSign_iff (t : TransactionBase) :
    CanSign c t ↔ (c.sign t.m_secret (c.sha3 t.unsignedItem.encode)).isValid = true := by
  rw [CanSign, t.rlp_unsigned]
  simp

/-- The stream with the signature over the fields is read back as such. -/
theorem signedFor_signedItems (t : TransactionBase) :
    SignedFor c t (Item.list
      (t.signedItems (c.sign t.m_secret (c.sha3 t.unsignedItem.encode)))).encode := by
  generalize hvrs : c.sign t.m_secret (c.sha3 t.unsignedItem.encode) = vrs
  have hlen := t.length_signedItem vrs
  have hsize : (Item.list (t.signedItems vrs)).encode.length < 2 ^ 64 - 257 := by omega
  have hfresh : RLP.Cached (RLP.fresh (Item.list (t.signedItems vrs)).encode)
      (t.signedItems vrs) := .inl rfl
  obtain ⟨r', hitem, -⟩ := hfresh.getItem hsize 0
  refine ⟨_, _, r', RLP.new_veryStrict _ hsize, hitem, ?_⟩
  -- The first item is the unsigned transaction.
  have hdata : (RLP.fresh (RLP.itemBytes (t.signedItems vrs) 0)).m_data = t.unsignedItem.encode :=
    rfl
  rw [hdata, hvrs]
  exact readsSigned_signedItems hfresh

/-- Without a signature the stream stops at the latest where it would be. -/
theorem rlp_of_none {t : TransactionBase} (hvrs : t.m_vrs = none) :
    ∃ err, t.rlp .withSignature = .error err ∧ ∀ text, err ≠ .thrown text := by
  rw [rlp, streamRLP, hvrs]
  change ∃ err, (((t.streamFields ⟨[], [(4, 0)]⟩).mapError TransactionError.rlp >>=
    fun _ => .error .emptyOptional) >>= fun s : RLPStream => s.out.mapError .rlp) = .error err ∧ _
  cases t.streamFields ⟨[], [(4, 0)]⟩ with
  | error e => exact ⟨.rlp e, rfl, fun text h => by cases h⟩
  | ok s => exact ⟨.emptyOptional, rfl, fun text h => by cases h⟩

/-- What is streamed is never reported as an error. -/
theorem rlp_not_thrown (t : TransactionBase) (text : Str) :
    t.rlp .withSignature ≠ .error (.thrown text) := by
  intro hthrown
  cases hvrs : t.m_vrs with
  | none =>
    obtain ⟨err, herr, hnot⟩ := rlp_of_none hvrs
    rw [herr] at hthrown
    exact hnot text (Except.error.inj hthrown)
  | some vrs =>
    rw [t.rlp_signed hvrs] at hthrown
    cases hthrown

/-- One call signs the content, or reports that it cannot, exactly when the secret is
    empty or gives a valid signature. -/
theorem signs_iff (t : TransactionBase) :
    Signs c t ↔ t.m_secret.toBool = false ∨ CanSign c t := by
  cases hsecret : t.m_secret.toBool with
  | false =>
    refine iff_of_true ⟨fun out hout => ?_, fun _ => ?_⟩ (.inl rfl)
    · rw [signTransaction_empty hsecret] at hout
      cases hout
    · rw [signTransaction_empty hsecret]
      exact ⟨_, rfl⟩
  | true =>
    rw [or_iff_right (by simp)]
    constructor
    · intro hsigns
      by_contra hcannot
      obtain ⟨text, hthrown⟩ := hsigns.reported hcannot
      rw [canSign_iff, Bool.not_eq_true] at hcannot
      rw [signTransaction_invalid hsecret hcannot] at hthrown
      exact rlp_not_thrown t text hthrown
    · intro hcan
      refine ⟨fun out hout => ?_, fun hcannot => absurd hcan hcannot⟩
      rw [signTransaction_valid hsecret ((canSign_iff t).mp hcan)] at hout
      rw [← Except.ok.inj hout]
      exact signedFor_signedItems t

variable (c) in
/-- What a signing call returns, as `Signs` asks. -/
def SignsContent (t : TransactionBase) : Call → Prop
  | .signTransaction => Signs c t
  | .signTransactionWithSecret secret => Signs c (t.withSecret secret)
  | _ => True

variable (c) in
/-- A signing call has an empty secret or one that gives a valid signature. -/
def SignsValidly (t : TransactionBase) : Call → Prop
  | .signTransaction => t.m_secret.toBool = false ∨ CanSign c t
  | .signTransactionWithSecret secret => secret.toBool = false ∨ CanSign c (t.withSecret secret)
  | _ => True

theorem signsContent_iff (t : TransactionBase) (op : Call) :
    SignsContent c t op ↔ SignsValidly c t op := by
  cases op with
  | signTransaction => exact signs_iff t
  | signTransactionWithSecret secret => exact signs_iff (t.withSecret secret)
  | _ => exact Iff.rfl

end TransactionBase

open TransactionBase in
/-- In a run, every raw transaction that is returned is signed for what it contains, and
    every failure to sign is reported, exactly when every signing call has an empty secret
    or one that gives a valid signature. -/
theorem signed_for_content_iff (c : Crypto) (t : TransactionBase) (calls : List Call) :
    Along (TransactionBase.call c) (SignsContent c) t calls ↔
      Along (TransactionBase.call c) (SignsValidly c) t calls :=
  Along.congr signsContent_iff

/-- `keyOneCrypto`, with the signature of all zeros for every key but 1. -/
def keyOneOnly : Crypto :=
  { keyOneCrypto with
    sign := fun key _ => if key = .ofNat 32 1 then keyOneSignature else ⟨.zero 32, .zero 32, 0⟩ }

/-- Signed with the key 1 and then with a value that is no key, a transaction with a changed
    nonce is returned with the signature of the one before. -/
theorem invalidKey_old_signature :
    ¬ Along (TransactionBase.call keyOneOnly) (TransactionBase.SignsContent keyOneOnly) unsignedCall
        [.signTransactionWithSecret (.ofNat 32 1), .withNonce 2,
          .signTransactionWithSecret (.ofNat 32 (2 ^ 256 - 1))] ∧
      (TransactionBase.signTransactionWithSecret keyOneOnly
        (run (TransactionBase.call keyOneOnly) unsignedCall
          [.signTransactionWithSecret (.ofNat 32 1), .withNonce 2])
        (.ofNat 32 (2 ^ 256 - 1))).2 = .ok (keyOneStream 2) := by
  have hsecret : (FixedHash.ofNat 32 (2 ^ 256 - 1)).toBool = true := by decide
  have hinvalid : ∀ hash, (keyOneOnly.sign (.ofNat 32 (2 ^ 256 - 1)) hash).isValid = false := by
    intro hash
    have hother : FixedHash.ofNat 32 (2 ^ 256 - 1) ≠ .ofNat 32 1 := by decide
    simp only [keyOneOnly, if_neg hother]
    decide
  have hsigned := signTransaction_unsignedCall (c := keyOneOnly) fun hash => by
    simp only [keyOneOnly, if_true]
  constructor
  · rw [Along.congr TransactionBase.signsContent_iff]
    intro hsigns
    obtain ⟨_, _, hlast, _⟩ := hsigns
    rcases hlast with hempty | hcan
    · rw [hsecret] at hempty
      cases hempty
    · rw [TransactionBase.canSign_iff] at hcan
      exact absurd hcan (by rw [TransactionBase.withSecret, hinvalid]; decide)
  · simp only [run, List.foldl_cons, List.foldl_nil, hsigned]
    rw [TransactionBase.signTransactionWithSecret,
      TransactionBase.signTransaction_invalid hsecret (hinvalid _)]
    exact TransactionBase.rlp_signed _ rfl

end ConfluxSdk
