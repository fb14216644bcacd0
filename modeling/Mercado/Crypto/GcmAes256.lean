import Mathlib.Data.List.Nodup
import Mercado.Bytes.BigEndian

/-! Messages sealed with AES-256-GCM. The nonce is drawn at random, stands in front of the
sealed message, and is counted up with every use of a key. -/
namespace Mercado.Crypto

inductive CryptoError where
  | encodingFailed
  | decodingFailed
  deriving DecidableEq, Repr

inductive Unspecified where
  | unspecified
  deriving DecidableEq, Repr

def nonceLen : Nat := 12

abbrev Nonce := Vector UInt8 nonceLen

/- `u128` in big-endian order. -/

def toBeBytes (n : BitVec 128) : Vector UInt8 16 :=
  ⟨(Bytes.toBe 16 n.toNat).toArray, by rw [List.size_toArray, Bytes.length_toBe]⟩

def fromBeBytes (bytes : Vector UInt8 16) : BitVec 128 := .ofNat 128 (Bytes.ofBe bytes.toList)

@[ext] structure NonceSequence where
  number : BitVec 128
  deriving DecidableEq, Repr

namespace NonceSequence

def sequenceNumberStartIndex : Nat := 4

def padded (bytes : Nonce) : Vector UInt8 (sequenceNumberStartIndex + nonceLen) :=
  Vector.replicate sequenceNumberStartIndex (0 : UInt8) ++ bytes

/-- What the random generator fills in, if it does, is the number of 96 bits. -/
def new (fill : Except Unspecified Nonce) : Except Unspecified NonceSequence := do
  let random ← fill
  return ⟨fromBeBytes (padded random)⟩

def current (this : NonceSequence) : Nonce :=
  (toBeBytes this.number).drop sequenceNumberStartIndex

def fromBytes (bytes : Nonce) : NonceSequence :=
  ⟨fromBeBytes (padded bytes)⟩

/-- The nonce before the number is increased. It never fails. -/
def advance (this : NonceSequence) : Except Unspecified (Nonce × NonceSequence) :=
  .ok ((toBeBytes this.number).drop sequenceNumberStartIndex, ⟨this.number + 1⟩)

def advances : Nat → NonceSequence → Except Unspecified (List Nonce)
  | 0, _ => .ok []
  | calls + 1, this => do
    let (nonce, next) ← this.advance
    let later ← advances calls next
    return nonce :: later

end NonceSequence

abbrev UnboundKey := Vector UInt8 32

def UnboundKey.new (secret : List UInt8) : Except Unspecified UnboundKey :=
  if h : secret.length = 32 then .ok ⟨secret.toArray, h⟩ else .error .unspecified

/-- The primitives of `ring`: a message becomes the ciphertext with the tag behind it, and the
other way round. -/
structure Aead where
  sealBytes : UnboundKey → Nonce → (aad message : List UInt8) → Except Unspecified (List UInt8)
  openBytes : UnboundKey → Nonce → (aad sealed : List UInt8) → Except Unspecified (List UInt8)

/-- Every message can be sealed, and is what the sealed message opens to. -/
def Aead.Ideal (aead : Aead) : Prop :=
  ∀ key nonce aad message, ∃ sealed, aead.sealBytes key nonce aad message = .ok sealed ∧
    aead.openBytes key nonce aad sealed = .ok message

structure BoundKey where
  key : UnboundKey
  nonceSequence : NonceSequence

def BoundKey.sealInPlaceAppendTag (aead : Aead) (this : BoundKey) (aad inOut : List UInt8) :
    Except Unspecified (Nonce × List UInt8) := do
  let (nonce, _) ← this.nonceSequence.advance
  let sealed ← aead.sealBytes this.key nonce aad inOut
  return (nonce, sealed)

def BoundKey.openWithin (aead : Aead) (this : BoundKey) (aad inOut : List UInt8)
    (start : Nat) : Except Unspecified (List UInt8) := do
  let (nonce, _) ← this.nonceSequence.advance
  aead.openBytes this.key nonce aad (inOut.drop start)

def changeContext {ε α : Type} (e : CryptoError) (r : Except ε α) : Except CryptoError α :=
  r.mapError fun _ => e

def encodeWith (aead : Aead) (fill : Except Unspecified Nonce) (secret msg : List UInt8) :
    Except CryptoError (Nonce × List UInt8) := do
  let nonceSequence ← changeContext .encodingFailed (NonceSequence.new fill)
  let currentNonce := nonceSequence.current
  let key ← changeContext .encodingFailed (UnboundKey.new secret)
  let (used, inOut) ← changeContext .encodingFailed
    (BoundKey.sealInPlaceAppendTag aead ⟨key, nonceSequence⟩ [] msg)
  return (used, currentNonce.toList ++ inOut)

def encodeMessage (aead : Aead) (fill : Except Unspecified Nonce) (secret msg : List UInt8) :
    Except CryptoError (List UInt8) := (encodeWith aead fill secret msg).map Prod.snd

def nonceOf (msg : List UInt8) : Except CryptoError Nonce :=
  if h : nonceLen ≤ msg.length then
    .ok ⟨(msg.take nonceLen).toArray, by rw [List.size_toArray, List.length_take_of_le h]⟩
  else .error .decodingFailed

def decodeMessage (aead : Aead) (secret msg : List UInt8) : Except CryptoError (List UInt8) := do
  let key ← changeContext .decodingFailed (UnboundKey.new secret)
  let nonce ← nonceOf msg
  changeContext .decodingFailed
    (BoundKey.openWithin aead ⟨key, .fromBytes nonce⟩ [] msg nonceLen)

/- Nonces and numbers. -/

namespace NonceSequence

theorem current_toList (s : NonceSequence) :
    s.current.toList = Bytes.toBe nonceLen s.number.toNat :=
  Vector.toList_drop.trans (Bytes.drop_toBe sequenceNumberStartIndex nonceLen s.number.toNat)

theorem fromBytes_toNat (bytes : Nonce) :
    (fromBytes bytes).number.toNat = Bytes.ofBe bytes.toList := by
  have small := Bytes.ofBe_lt bytes.toList
  rw [Vector.length_toList] at small
  have value : Bytes.ofBe (padded bytes).toList = Bytes.ofBe bytes.toList := by
    rw [padded, Vector.toList_append, Vector.toList_replicate, Bytes.ofBe_zeros]
  change (BitVec.ofNat 128 (Bytes.ofBe (padded bytes).toList)).toNat = _
  rw [value, BitVec.toNat_ofNat, Nat.mod_eq_of_lt]
  exact Nat.lt_trans small (by decide)

theorem current_fromBytes (bytes : Nonce) : (fromBytes bytes).current = bytes := by
  have back := Bytes.toBe_ofBe bytes.toList
  rw [Vector.length_toList] at back
  apply Vector.toList_inj.mp
  rw [current_toList, fromBytes_toNat, back]

theorem fromBytes_current {s : NonceSequence} (narrow : s.number.toNat < 2 ^ 96) :
    fromBytes s.current = s := by
  apply NonceSequence.ext
  apply BitVec.eq_of_toNat_eq
  rw [fromBytes_toNat, current_toList, Bytes.ofBe_toBe, nonceLen]
  omega

theorem advances_eq (calls : Nat) (s : NonceSequence) : s.advances calls =
    .ok ((List.range calls).map fun i => current ⟨s.number + .ofNat 128 i⟩) := by
  induction calls generalizing s with
  | zero => rfl
  | succ calls ih =>
    have later : ∀ i, s.number + 1 + BitVec.ofNat 128 i = s.number + BitVec.ofNat 128 (i + 1) := by
      intro i
      have one : (1 : BitVec 128).toNat = 1 := rfl
      apply BitVec.eq_of_toNat_eq
      simp only [BitVec.toNat_add, BitVec.toNat_ofNat, one]
      omega
    have first : s.number + BitVec.ofNat 128 0 = s.number := BitVec.add_zero _
    rw [List.range_succ_eq_map, List.map_cons, List.map_map, first]
    change (do
      let later ← advances calls ⟨s.number + 1⟩
      return s.current :: later) = _
    rw [ih]
    refine congrArg (fun later => Except.ok (s.current :: later)) (List.map_congr_left ?_)
    intro i _
    exact congrArg (fun number => current ⟨number⟩) (later i)

theorem current_inj {s : NonceSequence} {i j : Nat} (hi : i < 2 ^ 96) (hj : j < 2 ^ 96)
    (same : current ⟨s.number + .ofNat 128 i⟩ = current ⟨s.number + .ofNat 128 j⟩) : i = j := by
  have bytes := congrArg Vector.toList same
  rw [current_toList, current_toList, Bytes.toBe_inj] at bytes
  simp only [BitVec.toNat_add, BitVec.toNat_ofNat, nonceLen] at bytes
  omega

/-- No nonce comes back before all of them have come. -/
theorem advances_nodup {calls : Nat} (within : calls ≤ 2 ^ 96) (s : NonceSequence) :
    ∃ nonces, s.advances calls = .ok nonces ∧ nonces.length = calls ∧ nonces.Nodup := by
  refine ⟨_, advances_eq calls s, by simp, ?_⟩
  refine List.Nodup.map_on ?_ List.nodup_range
  intro i hi j hj same
  rw [List.mem_range] at hi hj
  exact current_inj (Nat.lt_of_lt_of_le hi within) (Nat.lt_of_lt_of_le hj within) same

end NonceSequence

/- Messages. -/

section Messages

variable {aead : Aead} {secret : List UInt8}

theorem nonceOf_append (nonce : Nonce) (rest : List UInt8) :
    nonceOf (nonce.toList ++ rest) = .ok nonce := by
  have length : nonce.toList.length = nonceLen := Vector.length_toList
  have long : nonceLen ≤ (nonce.toList ++ rest).length := by
    rw [List.length_append, length]
    exact Nat.le_add_right nonceLen rest.length
  unfold nonceOf
  rw [dif_pos long]
  refine congrArg Except.ok (Vector.toList_inj.mp ?_)
  exact List.take_left' length

theorem decodeMessage_short {msg : List UInt8} (short : msg.length < nonceLen) :
    decodeMessage aead secret msg = .error .decodingFailed := by
  have none : nonceOf msg = .error .decodingFailed := dif_neg (Nat.not_le.mpr short)
  unfold decodeMessage UnboundKey.new
  split
  · rw [none]
    rfl
  · rfl

theorem encodeWith_eq (length : secret.length = 32) {random : Nonce} {msg sealed : List UInt8}
    (made : aead.sealBytes ⟨secret.toArray, length⟩ random [] msg = .ok sealed) :
    encodeWith aead (.ok random) secret msg = .ok (random, random.toList ++ sealed) := by
  have key : UnboundKey.new secret = .ok ⟨secret.toArray, length⟩ := dif_pos length
  have current : (NonceSequence.fromBytes random).current = random :=
    NonceSequence.current_fromBytes random
  have used : BoundKey.sealInPlaceAppendTag aead ⟨⟨secret.toArray, length⟩, .fromBytes random⟩ []
      msg = .ok (random, sealed) := by
    change (do
      let sealed ← aead.sealBytes _ (NonceSequence.fromBytes random).current [] msg
      return ((NonceSequence.fromBytes random).current, sealed)) = _
    rw [current, made]
    rfl
  change (do
    let key ← changeContext .encodingFailed (UnboundKey.new secret)
    let (used, inOut) ← changeContext .encodingFailed
      (BoundKey.sealInPlaceAppendTag aead ⟨key, .fromBytes random⟩ [] msg)
    return (used, (NonceSequence.fromBytes random).current.toList ++ inOut)) = _
  rw [key, current]
  change (do
    let (used, inOut) ← changeContext .encodingFailed
      (BoundKey.sealInPlaceAppendTag aead ⟨⟨secret.toArray, length⟩, .fromBytes random⟩ [] msg)
    return (used, random.toList ++ inOut)) = _
  rw [used]
  rfl

theorem decodeMessage_eq (length : secret.length = 32) {nonce : Nonce} {sealed msg : List UInt8}
    (opened : aead.openBytes ⟨secret.toArray, length⟩ nonce [] sealed = .ok msg) :
    decodeMessage aead secret (nonce.toList ++ sealed) = .ok msg := by
  have key : UnboundKey.new secret = .ok ⟨secret.toArray, length⟩ := dif_pos length
  have behind : (nonce.toList ++ sealed).drop nonceLen = sealed :=
    List.drop_left' Vector.length_toList
  have result : BoundKey.openWithin aead ⟨⟨secret.toArray, length⟩, .fromBytes nonce⟩ []
      (nonce.toList ++ sealed) nonceLen = .ok msg := by
    change aead.openBytes _ (NonceSequence.fromBytes nonce).current [] _ = _
    rw [NonceSequence.current_fromBytes, behind, opened]
  unfold decodeMessage
  rw [key, nonceOf_append]
  exact congrArg (changeContext .decodingFailed) result

end Messages

/-- What is encoded is decoded again, behind the nonce that it was sealed with, and no nonce
is used twice. -/
theorem gcm_message_framing (aead : Aead) (ideal : aead.Ideal) (secret : List UInt8)
    (length : secret.length = 32) :
    (∀ random msg, ∃ used encoded,
      encodeWith aead (.ok random) secret msg = .ok (used, encoded) ∧
      encodeMessage aead (.ok random) secret msg = .ok encoded ∧
      encoded.take nonceLen = used.toList ∧ decodeMessage aead secret encoded = .ok msg) ∧
    (∀ secret msg, msg.length < nonceLen → ∃ e, decodeMessage aead secret msg = .error e) ∧
    (∀ bytes, (NonceSequence.fromBytes bytes).current = bytes) ∧
    (∀ s : NonceSequence, s.number.toNat < 2 ^ 96 → .fromBytes s.current = s) ∧
    ∀ (s : NonceSequence) (calls : Nat), calls ≤ 2 ^ 96 →
      ∃ nonces, s.advances calls = .ok nonces ∧ nonces.length = calls ∧ nonces.Nodup := by
  refine ⟨?_, fun _ _ short => ⟨_, decodeMessage_short short⟩, NonceSequence.current_fromBytes,
    fun _ => NonceSequence.fromBytes_current, fun s _ within => s.advances_nodup within⟩
  intro random msg
  obtain ⟨sealed, made, opened⟩ := ideal ⟨secret.toArray, length⟩ random [] msg
  have encoded := encodeWith_eq length made
  refine ⟨random, random.toList ++ sealed, encoded, ?_, ?_, decodeMessage_eq length opened⟩
  · rw [encodeMessage, encoded]
    rfl
  · exact List.take_left' Vector.length_toList

/- The vector of the tests, and a cipher that agrees with AES-256-GCM on it. -/

def vectorSecret : List UInt8 :=
  Bytes.toBe 32 0xfeffe9928665731c6d6a8f9467308308feffe9928665731c6d6a8f9467308308

def vectorNonce : Nonce := ⟨(Bytes.toBe 12 0xcafebabefacedbaddecaf888).toArray, rfl⟩

def vectorMessage : List UInt8 :=
  Bytes.toBe 32 0xd9313225f88406e5a55909c5aff5269a86a7a9531534f7da2e4c303d8a318a72 ++
    Bytes.toBe 32 0x1c3c0c95956809532fcf0e2449a6b525b16aedf5aa0de657ba637b391aafd255

def vectorSealed : List UInt8 :=
  Bytes.toBe 32 0x522dc1f099567d07f47f37a32a84427d643a8cdcbfe5c0c97598a2bd2555d1aa ++
    Bytes.toBe 32 0x8cb08e48590dbb3da7b08b1056828838c5f61e6393ba7a0abcc9f662898015ad ++
    Bytes.toBe 16 0xb094dac5d93471bdec1a502270e3cc6c

def vectorAead : Aead where
  sealBytes key nonce aad message :=
    if key.toList = vectorSecret ∧ nonce = vectorNonce ∧ aad = [] ∧ message = vectorMessage then
      .ok vectorSealed
    else .ok (message ++ List.replicate 16 0)
  openBytes key nonce aad sealed :=
    if key.toList = vectorSecret ∧ nonce = vectorNonce ∧ aad = [] ∧ sealed = vectorSealed then
      .ok vectorMessage
    else .ok (sealed.take (sealed.length - 16))

theorem vectorAead_ideal : vectorAead.Ideal := by
  intro key nonce aad message
  by_cases vector : key.toList = vectorSecret ∧ nonce = vectorNonce ∧ aad = [] ∧
      message = vectorMessage
  · obtain ⟨secret, rfl, rfl, rfl⟩ := vector
    exact ⟨vectorSealed, if_pos ⟨secret, rfl, rfl, rfl⟩, if_pos ⟨secret, rfl, rfl, rfl⟩⟩
  · refine ⟨message ++ List.replicate 16 0, if_neg vector, (if_neg ?_).trans ?_⟩
    · rintro ⟨-, -, -, same⟩
      have tag := congrArg (fun sealed => sealed.reverse.head?) same
      have last : (message ++ List.replicate 16 (0 : UInt8)).reverse.head? = some 0 := by
        rw [List.reverse_append]
        rfl
      rw [last] at tag
      exact absurd tag (by decide)
    · rw [List.length_append, List.length_replicate, Nat.add_sub_cancel, List.take_left]

theorem gcm_message_framing_vector : ∃ used encoded,
    encodeWith vectorAead (.ok vectorNonce) vectorSecret vectorMessage = .ok (used, encoded) ∧
      encodeMessage vectorAead (.ok vectorNonce) vectorSecret vectorMessage = .ok encoded ∧
      encoded.take nonceLen = used.toList ∧
      decodeMessage vectorAead vectorSecret encoded = .ok vectorMessage :=
  (gcm_message_framing vectorAead vectorAead_ideal vectorSecret rfl).1 vectorNonce vectorMessage

end Mercado.Crypto
