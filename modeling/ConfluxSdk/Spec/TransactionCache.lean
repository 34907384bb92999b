import ConfluxSdk.ForStd.Runs
import ConfluxSdk.Spec.TransactionRlp

/-!
# The cached hash and sender of a transaction

`sha3` and `sender` keep their results in `m_hashWith` and `m_sender`, and nothing ever
clears these. The results are current as long as no call changes what they were
computed from while one of them is kept.

## Key results

- `TransactionBase.call_effect`: what a call can do to the caches
- `TransactionBase.current_iff_fresh`: the results are current exactly when the caches are
- `run_current`: in a run that changes nothing while a result is kept, they are current
  in every state
-/

namespace ConfluxSdk

open Runs (run Along)

namespace TransactionBase

/-! ### What the caches depend on -/

/-- The nine streamed fields and the signature are the same. -/
def SameContent (t t' : TransactionBase) : Prop :=
  t.fieldItems = t'.fieldItems ∧ t.m_vrs = t'.m_vrs

theorem SameContent.refl (t : TransactionBase) : SameContent t t := ⟨rfl, rfl⟩

/-- The stream depends on the fields and the signature only. -/
theorem SameContent.rlp_eq {t t' : TransactionBase} (h : SameContent t t')
    (sig : IncludeSignature) : t.rlp sig = t'.rlp sig := by
  have hitem : t.unsignedItem = t'.unsignedItem := congrArg LengthPrefix.Item.list h.1
  rw [rlp, rlp]
  cases sig with
  | withoutSignature => simp only [streamRLP, streamFields_eq, hitem]
  | withSignature => simp only [streamRLP, streamFields_eq, hitem, h.2]

theorem SameContent.hasZeroSignature_eq {t t' : TransactionBase} (h : SameContent t t') :
    t.hasZeroSignature = t'.hasZeroSignature := by
  rw [hasZeroSignature, hasZeroSignature, h.2]

variable (c : Crypto)

/-- The hash of the stream with the signature. -/
def IsHash (t : TransactionBase) (h : FixedHash 32) : Prop :=
  ∃ out, t.rlp .withSignature = .ok out ∧ h = c.sha3 out

/-- The address recovered from the signature and the hash of the unsigned stream. -/
def IsSender (t : TransactionBase) (a : FixedHash 20) : Prop :=
  ∃ vrs out, t.m_vrs = some vrs ∧ t.rlp .withoutSignature = .ok out ∧
    a = right160 (c.sha3 (c.recover vrs (c.sha3 out)).bytes)

/-- The cached results are those of the current fields and signature. -/
structure Fresh (t : TransactionBase) : Prop where
  hash : t.m_hashWith.toBool = true → IsHash c t t.m_hashWith
  sender : ∀ a, t.m_sender = some a → t.hasZeroSignature = false → IsSender c t a

/-- What the calls return is the result for the current fields and signature. -/
structure Current (t : TransactionBase) : Prop where
  sha3 : ∀ h, (t.sha3 c .withSignature).2 = .ok h → IsHash c t h
  sender : ∀ a, (t.sender c).2 = .ok a → t.hasZeroSignature = false → IsSender c t a

variable {c}

theorem SameContent.isHash {t t' : TransactionBase} (h : SameContent t t') {hash : FixedHash 32}
    (hhash : IsHash c t hash) : IsHash c t' hash := by
  obtain ⟨out, hout, heq⟩ := hhash
  exact ⟨out, by rw [← h.rlp_eq, hout], heq⟩

theorem SameContent.isSender {t t' : TransactionBase} (h : SameContent t t') {a : FixedHash 20}
    (ha : IsSender c t a) : IsSender c t' a := by
  obtain ⟨vrs, out, hvrs, hout, heq⟩ := ha
  exact ⟨vrs, out, by rw [← h.2, hvrs], by rw [← h.rlp_eq, hout], heq⟩

/-! ### What a call does -/

variable (c) in
/-- What a call can do to the caches: leave them, or fill one with the result for fields
    and a signature that stay as they are. -/
structure Effect (t t' : TransactionBase) : Prop where
  hash : t'.m_hashWith = t.m_hashWith ∨ (SameContent t t' ∧ IsHash c t t'.m_hashWith)
  sender : t'.m_sender = t.m_sender ∨ (SameContent t t' ∧ ∃ a, t'.m_sender = some a ∧
    (t.hasZeroSignature = false → IsSender c t a))

/-- A call that leaves both caches. -/
theorem Effect.of_caches {t t' : TransactionBase} (hhash : t'.m_hashWith = t.m_hashWith)
    (hsender : t'.m_sender = t.m_sender) : Effect c t t' := ⟨.inl hhash, .inl hsender⟩

/-- Hashing without the signature changes nothing. -/
theorem sha3_without (t : TransactionBase) :
    t.sha3 c .withoutSignature = (t, .ok (c.sha3 t.unsignedItem.encode)) := by
  rw [TransactionBase.sha3, if_neg (by simp), t.rlp_unsigned]
  rfl

/-- A cached hash is returned as it is. -/
theorem sha3_cached {t : TransactionBase} (h : t.m_hashWith.toBool = true) :
    t.sha3 c .withSignature = (t, .ok t.m_hashWith) := by
  rw [TransactionBase.sha3, if_pos ⟨rfl, h⟩]

/-- Otherwise the stream is hashed, and the hash kept. -/
theorem sha3_uncached {t : TransactionBase} (h : ¬ t.m_hashWith.toBool = true) :
    t.sha3 c .withSignature = match t.rlp .withSignature with
      | .error e => (t, .error e)
      | .ok out => ({ t with m_hashWith := c.sha3 out }, .ok (c.sha3 out)) := by
  rw [TransactionBase.sha3, if_neg (fun hcached => h hcached.2)]
  rfl

theorem sha3_effect (t : TransactionBase) (sig : IncludeSignature) :
    Effect c t (t.sha3 c sig).1 := by
  cases sig with
  | withoutSignature =>
    rw [sha3_without]
    exact .of_caches rfl rfl
  | withSignature =>
    by_cases hcached : t.m_hashWith.toBool = true
    · rw [sha3_cached hcached]
      exact .of_caches rfl rfl
    · rw [sha3_uncached hcached]
      cases hrlp : t.rlp .withSignature with
      | error e => exact .of_caches rfl rfl
      | ok out => exact ⟨.inr ⟨.refl _, out, hrlp, rfl⟩, .inl rfl⟩

/-- Hashing changes the cached hash at most. -/
theorem sha3_frame (t : TransactionBase) (sig : IncludeSignature) :
    ∃ h, (t.sha3 c sig).1 = { t with m_hashWith := h } := by
  unfold TransactionBase.sha3
  split
  · exact ⟨t.m_hashWith, rfl⟩
  · split
    · exact ⟨t.m_hashWith, rfl⟩
    · dsimp only
      split
      · exact ⟨_, rfl⟩
      · exact ⟨t.m_hashWith, rfl⟩

/-- Signing changes the signature at most, and never a cache. -/
theorem signTransaction_frame (t : TransactionBase) :
    ∃ vrs, (t.signTransaction c).1 = { t with m_vrs := vrs } := by
  unfold signTransaction
  split
  · exact ⟨t.m_vrs, rfl⟩
  · rw [sign, sha3_without]
    dsimp only
    split
    · exact ⟨_, rfl⟩
    · exact ⟨t.m_vrs, rfl⟩

/-- What the recovery returns, and that it changes nothing. -/
theorem recoverSender_eq (t : TransactionBase) :
    (t.recoverSender c).1 = t ∧ ∀ a, (t.recoverSender c).2 = .ok a → IsSender c t a := by
  unfold recoverSender
  cases hvrs : t.m_vrs with
  | none => exact ⟨rfl, fun a h => by cases h⟩
  | some vrs =>
    rw [sha3_without]
    dsimp only
    split
    · exact ⟨rfl, fun a h => by cases h⟩
    · refine ⟨rfl, fun a h => ?_⟩
      exact ⟨vrs, _, hvrs, t.rlp_unsigned, (Except.ok.inj h).symm⟩

/-- Asking for the sender changes the cached sender at most. -/
theorem sender_frame (t : TransactionBase) : ∃ a, (t.sender c).1 = { t with m_sender := a } := by
  have hsame := (recoverSender_eq (c := c) t).1
  unfold TransactionBase.sender
  split
  · exact ⟨t.m_sender, rfl⟩
  · split
    · exact ⟨_, rfl⟩
    · generalize t.recoverSender c = result at hsame
      obtain ⟨t', res⟩ := result
      obtain rfl : t' = t := hsame
      cases res with
      | error e => exact ⟨t'.m_sender, rfl⟩
      | ok a => exact ⟨_, rfl⟩

theorem sender_effect (t : TransactionBase) : Effect c t (t.sender c).1 := by
  unfold TransactionBase.sender
  cases hcached : t.m_sender with
  | some a => exact .of_caches rfl rfl
  | none =>
    dsimp only
    by_cases hzero : t.hasZeroSignature = true
    · rw [if_pos hzero]
      refine ⟨.inl rfl, .inr ⟨.refl _, MaxAddress, rfl, fun hne => ?_⟩⟩
      rw [hzero] at hne
      cases hne
    · obtain ⟨hsame, hsender⟩ := recoverSender_eq (c := c) t
      rw [if_neg hzero]
      generalize t.recoverSender c = result at hsame hsender
      obtain ⟨t', res⟩ := result
      obtain rfl : t' = t := hsame
      cases res with
      | error e => exact .of_caches rfl rfl
      | ok a => exact ⟨.inl rfl, .inr ⟨.refl _, a, rfl, fun _ => hsender a rfl⟩⟩

/-- What a call can do to the caches. -/
theorem call_effect (t : TransactionBase) (op : Call) : Effect c t (t.call c op) := by
  cases op with
  | sha3 sig => exact sha3_effect t sig
  | sender => exact sender_effect t
  | signTransaction =>
    obtain ⟨vrs, hframe⟩ := signTransaction_frame (c := c) t
    rw [call, hframe]
    exact .of_caches rfl rfl
  | signTransactionWithSecret secret =>
    obtain ⟨vrs, hframe⟩ := signTransaction_frame (c := c) { t with m_secret := secret }
    rw [call, signTransactionWithSecret, hframe]
    exact .of_caches rfl rfl
  | _ => exact .of_caches rfl rfl

/-! ### Results and caches -/

/-- The results are current exactly when the cached ones are. -/
theorem current_iff_fresh (t : TransactionBase) : Current c t ↔ Fresh c t := by
  constructor
  · intro h
    refine ⟨fun hcached => ?_, fun a hcached => ?_⟩
    · apply h.sha3
      rw [sha3_cached hcached]
    · apply h.sender
      rw [TransactionBase.sender, hcached]
  · intro h
    refine ⟨fun hash hsha3 => ?_, fun a hsender hne => ?_⟩
    · -- A hash is cached, or computed from the transaction as it is.
      by_cases hcached : t.m_hashWith.toBool = true
      · rw [sha3_cached hcached] at hsha3
        rw [← Except.ok.inj hsha3]
        exact h.hash hcached
      · rw [sha3_uncached hcached] at hsha3
        cases hrlp : t.rlp .withSignature with
        | error e =>
          rw [hrlp] at hsha3
          cases hsha3
        | ok out =>
          rw [hrlp] at hsha3
          exact ⟨out, hrlp, (Except.ok.inj hsha3).symm⟩
    · unfold TransactionBase.sender at hsender
      cases hcached : t.m_sender with
      | some b =>
        rw [hcached] at hsender
        rw [← Except.ok.inj hsender]
        exact h.sender b hcached hne
      | none =>
        -- Nothing is cached, and a sender other than the null one is recovered.
        have hrecover := (recoverSender_eq (c := c) t).2
        rw [hcached] at hsender
        simp only [hne, Bool.false_eq_true, if_false] at hsender
        generalize t.recoverSender c = result at hsender hrecover
        obtain ⟨t', res⟩ := result
        cases res with
        | error e => cases hsender
        | ok b =>
          rw [← Except.ok.inj hsender]
          exact hrecover b rfl

/-! ### Runs -/

variable (c) in
/-- Signing with the secret stores no signature other than the one that is there. -/
def KeepsSignature (t : TransactionBase) (secret : FixedHash 32) : Prop :=
  secret.toBool = true → ∀ out, t.rlp .withoutSignature = .ok out →
    (c.sign secret (c.sha3 out)).isValid = true → t.m_vrs = some (c.sign secret (c.sha3 out))

variable (c) in
/-- The call gives the nine streamed fields and the signature the values they have. -/
def Keeps (t : TransactionBase) : Call → Prop
  | .withNonce value => value = t.m_nonce
  | .withChainId value => value = t.m_chainId
  | .withGasPrice value => value = t.m_gasPrice
  | .withEpochHeight value => value = t.m_epochHeight
  | .withGas value => value = t.m_gas
  | .withStorageLimit value => value = t.m_storageLimit
  | .withValue value => value = t.m_value
  | .withData data => data = t.m_data
  | .signTransaction => KeepsSignature c t t.m_secret
  | .signTransactionWithSecret secret => KeepsSignature c t secret
  -- The other calls write members that are not streamed.
  | .withReceive _ | .withTo _ | .withSecret _ | .sha3 _ | .sender => True

variable (c) in
/-- No call changes what the hash and the sender are computed from while one of them is
    cached. -/
def Safe (t : TransactionBase) (op : Call) : Prop :=
  t.m_hashWith.toBool = true ∨ t.m_sender ≠ none → Keeps c t op

theorem signTransaction_content {t : TransactionBase} (h : KeepsSignature c t t.m_secret) :
    SameContent t (t.signTransaction c).1 := by
  unfold signTransaction
  by_cases hsecret : t.m_secret.toBool = true
  · simp only [hsecret, Bool.not_true, Bool.false_eq_true, if_false, sign, sha3_without]
    by_cases hvalid : (c.sign t.m_secret (c.sha3 t.unsignedItem.encode)).isValid = true
    · rw [if_pos hvalid]
      exact ⟨rfl, h hsecret _ t.rlp_unsigned hvalid⟩
    · rw [if_neg hvalid]
      exact .refl t
  · rw [if_pos (by simpa using hsecret)]
    exact .refl t

/-- A call that keeps the values keeps the content. -/
theorem Keeps.sameContent {t : TransactionBase} {op : Call} (h : Keeps c t op) :
    SameContent t (t.call c op) := by
  cases op with
  | signTransaction => exact signTransaction_content h
  | signTransactionWithSecret secret =>
    exact signTransaction_content (t := { t with m_secret := secret }) h
  | sha3 sig =>
    obtain ⟨hash, hframe⟩ := sha3_frame (c := c) t sig
    rw [call, hframe]
    exact ⟨rfl, rfl⟩
  | sender =>
    obtain ⟨a, hframe⟩ := sender_frame (c := c) t
    rw [call, hframe]
    exact ⟨rfl, rfl⟩
  | withReceive | withTo | withSecret => exact ⟨rfl, rfl⟩
  | _ =>
    cases h
    exact .refl t

/-- One call keeps the caches fresh. -/
theorem call_fresh {t : TransactionBase} {op : Call} (h : Fresh c t) (hsafe : Safe c t op) :
    Fresh c (t.call c op) := by
  have heffect := call_effect (c := c) t op
  refine ⟨fun hcached => ?_, fun a hcached hne => ?_⟩
  · rcases heffect.hash with hsame | ⟨hcontent, hhash⟩
    · -- The hash was there before, so its stream has not changed.
      rw [hsame] at hcached ⊢
      exact (hsafe (.inl hcached)).sameContent.isHash (h.hash hcached)
    · exact hcontent.isHash hhash
  · rcases heffect.sender with hsame | ⟨hcontent, b, hb, hsender⟩
    · rw [hsame] at hcached
      have hcontent := (hsafe (.inr (by rw [hcached]; simp))).sameContent
      rw [← hcontent.hasZeroSignature_eq] at hne
      exact hcontent.isSender (h.sender a hcached hne)
    · rw [hb] at hcached
      obtain rfl := Option.some.inj hcached
      rw [← hcontent.hasZeroSignature_eq] at hne
      exact hcontent.isSender (hsender hne)

/-- A transaction without cached results, as all constructors leave it. -/
def Initial (t : TransactionBase) : Prop := t.m_hashWith = .zero 32 ∧ t.m_sender = none

theorem Initial.fresh {t : TransactionBase} (h : Initial t) : Fresh c t := by
  refine ⟨fun hcached => ?_, fun a hcached => ?_⟩
  · rw [h.1] at hcached
    exact absurd hcached (by decide)
  · rw [h.2] at hcached
    cases hcached

theorem initial_constructors (dest : Address) (value : U256) (data : Bytes)
    (secret : FixedHash 32) :
    Initial null ∧ Initial (ofMessageCall dest value secret) ∧
      Initial (ofContractCreation data secret) :=
  ⟨⟨rfl, rfl⟩, ⟨rfl, rfl⟩, ⟨rfl, rfl⟩⟩

end TransactionBase

/-! ### A transaction signed with the private key 1 -/

/-- `signedCall` before it is signed. -/
def unsignedCall : TransactionBase := { signedCall with m_vrs := none }

/-- The signature of `unsignedCall` with the private key 1. -/
def keyOneSignature : SignatureStruct where
  r := .ofNat 32 0xc13fc043e72df30efe013009342fb101cd7a55793b04c9a26d6b19fa80101690
  s := .ofNat 32 0x76fdac5331982f000664b89c874302da5ac98d177506abd3102c3e756e41658e
  v := 1

/-- The stream of `unsignedCall` with a signature, at some nonce. -/
def keyOneStream (nonce : U256) : List UInt8 :=
  (LengthPrefix.Item.list ((unsignedCall.withNonce nonce).signedItems keyOneSignature)).encode

/-- Keccak-256 on the unsigned stream and on the signed streams with the nonces 1 and 2;
    signatures and public keys are those of the private key 1. -/
def keyOneCrypto : Crypto where
  sha3 out :=
    if out = unsignedCall.unsignedItem.encode then
      .ofNat 32 0x8a332dc19e64c7c4100ece50cc2adb4f6523f92bd752fb492df12fb4b675a2da
    else if out = keyOneStream 1 then
      .ofNat 32 0x85b2a5dbb84b195e35b5ce2175690d117d1e57f311a29085e649d468e00fdca2
    else .ofNat 32 0x426cf7df1fa26ec8556ae944b5771b2d8228e7bae787270d731ad054a25d64fc
  sign _ _ := keyOneSignature
  recover _ _ := .ofNat 64 (2 ^ 256 *
    0x79be667ef9dcbbac55a06295ce870b07029bfcdb2dce28d959f2815b16f81798 +
    0x483ada7726a3c4655da4fbfc0e1108a8fd17b448a68554199c47d08ffb10d4b8)

/-- Signing `unsignedCall` with the private key 1. -/
theorem signTransaction_unsignedCall {c : Crypto}
    (hsign : ∀ hash, c.sign (.ofNat 32 1) hash = keyOneSignature) :
    unsignedCall.call c (.signTransactionWithSecret (.ofNat 32 1)) =
      { unsignedCall with m_secret := .ofNat 32 1, m_vrs := some keyOneSignature } := by
  have hsecret : (!(FixedHash.ofNat 32 1).toBool) = false := by decide
  have hvalid : keyOneSignature.isValid = true := by decide
  show (TransactionBase.signTransaction c { unsignedCall with m_secret := .ofNat 32 1 }).1 = _
  rw [TransactionBase.signTransaction]
  simp only [hsecret, Bool.false_eq_true, if_false, TransactionBase.sign,
    TransactionBase.sha3_without]
  rw [hsign, if_pos hvalid]

theorem sha3_keyOneStream_one : keyOneCrypto.sha3 (keyOneStream 1) =
    .ofNat 32 0x85b2a5dbb84b195e35b5ce2175690d117d1e57f311a29085e649d468e00fdca2 := by
  have hunsigned : keyOneStream 1 ≠ unsignedCall.unsignedItem.encode := by decide +kernel
  simp only [keyOneCrypto, if_neg hunsigned, if_true]

theorem sha3_keyOneStream_two : keyOneCrypto.sha3 (keyOneStream 2) =
    .ofNat 32 0x426cf7df1fa26ec8556ae944b5771b2d8228e7bae787270d731ad054a25d64fc := by
  have hunsigned : keyOneStream 2 ≠ unsignedCall.unsignedItem.encode := by decide +kernel
  have hone : keyOneStream 2 ≠ keyOneStream 1 := by decide +kernel
  simp only [keyOneCrypto, if_neg hunsigned, if_neg hone]

/-- The hash of the signed transaction, which is kept. -/
theorem sha3_keyOne :
    TransactionBase.sha3 keyOneCrypto { unsignedCall with
        m_secret := .ofNat 32 1, m_vrs := some keyOneSignature } .withSignature =
      ({ unsignedCall with
          m_secret := .ofNat 32 1
          m_vrs := some keyOneSignature
          m_hashWith := keyOneCrypto.sha3 (keyOneStream 1) },
        .ok (keyOneCrypto.sha3 (keyOneStream 1))) := by
  have hempty : ¬ unsignedCall.m_hashWith.toBool = true := by decide
  have hitems : TransactionBase.signedItems { unsignedCall with
      m_secret := .ofNat 32 1, m_vrs := some keyOneSignature } keyOneSignature =
        (unsignedCall.withNonce 1).signedItems keyOneSignature := rfl
  have hrlp := TransactionBase.rlp_signed { unsignedCall with
    m_secret := .ofNat 32 1, m_vrs := some keyOneSignature } rfl
  rw [hitems, ← keyOneStream] at hrlp
  have h := TransactionBase.sha3_uncached (t := { unsignedCall with
    m_secret := .ofNat 32 1, m_vrs := some keyOneSignature }) (c := keyOneCrypto) hempty
  rw [hrlp] at h
  dsimp only at h
  -- Compared as it is, the hash would be computed from its stream.
  generalize keyOneCrypto.sha3 (keyOneStream 1) = hash at h
  rw [h]

/-! ### Every run -/

open TransactionBase in
/-- In a run that changes neither the streamed fields nor the signature while a result is
    cached, every hash and every sender that is returned is the current one. -/
theorem run_current (c : Crypto) {t : TransactionBase} (hinit : Initial t) {calls : List Call}
    (hsafe : Along (TransactionBase.call c) (Safe c) t calls) {pre : List Call}
    (hpre : pre <+: calls) : Current c (run (TransactionBase.call c) t pre) := by
  rw [current_iff_fresh]
  exact hsafe.invariant (fun _ _ h hs => call_fresh h hs) hinit.fresh hpre

theorem run_current_keyOne :
    TransactionBase.Current keyOneCrypto (run (TransactionBase.call keyOneCrypto) unsignedCall
      [.signTransactionWithSecret (.ofNat 32 1), .sha3 .withSignature, .withNonce 1,
        .withTo Address.default, .sender]) := by
  have hnonce : (1 : U256) = (TransactionBase.call keyOneCrypto (TransactionBase.call keyOneCrypto
      unsignedCall (.signTransactionWithSecret (.ofNat 32 1))) (.sha3 .withSignature)).m_nonce := by
    rw [signTransaction_unsignedCall (fun _ => rfl), TransactionBase.call, sha3_keyOne]
    rfl
  have hsafe : Along (TransactionBase.call keyOneCrypto) (TransactionBase.Safe keyOneCrypto)
      unsignedCall [.signTransactionWithSecret (.ofNat 32 1), .sha3 .withSignature, .withNonce 1,
        .withTo Address.default, .sender] := by
    refine ⟨fun hcached => ?_, fun _ => trivial, fun _ => hnonce, fun _ => trivial,
      fun _ => trivial, trivial⟩
    -- Nothing is cached when the transaction is signed.
    exact absurd hcached (by decide)
  exact run_current keyOneCrypto ⟨rfl, rfl⟩ hsafe (List.prefix_refl _)

/-- The hash of the transaction with the nonce 1 is returned for the nonce 2. -/
theorem stale_hash_keyOne :
    ∃ h out, TransactionBase.Initial unsignedCall ∧
      (TransactionBase.sha3 keyOneCrypto (run (TransactionBase.call keyOneCrypto) unsignedCall
        [.signTransactionWithSecret (.ofNat 32 1), .sha3 .withSignature, .withNonce 2])
          .withSignature).2 = .ok h ∧
      (run (TransactionBase.call keyOneCrypto) unsignedCall
        [.signTransactionWithSecret (.ofNat 32 1), .sha3 .withSignature, .withNonce 2]).rlp
          .withSignature = .ok out ∧
      h ≠ keyOneCrypto.sha3 out := by
  have hdiffer : keyOneCrypto.sha3 (keyOneStream 1) ≠ keyOneCrypto.sha3 (keyOneStream 2) := by
    rw [sha3_keyOneStream_one, sha3_keyOneStream_two]
    decide
  have hcached : (keyOneCrypto.sha3 (keyOneStream 1)).toBool = true := by
    rw [sha3_keyOneStream_one]
    decide
  refine ⟨keyOneCrypto.sha3 (keyOneStream 1), keyOneStream 2, ⟨rfl, rfl⟩, ?_⟩
  simp only [run, List.foldl_cons, List.foldl_nil,
    signTransaction_unsignedCall (c := keyOneCrypto) (fun _ => rfl)]
  simp only [TransactionBase.call, sha3_keyOne, TransactionBase.withNonce]
  generalize keyOneCrypto.sha3 (keyOneStream 1) = cached at hdiffer hcached
  refine ⟨?_, TransactionBase.rlp_signed _ rfl, hdiffer⟩
  rw [TransactionBase.sha3_cached hcached]

end ConfluxSdk
