import BareRTC.Srtp.Proof.Stream

/-!
# What is assumed of the cryptographic library

`Env.Correct`: no call fails, decryption inverts encryption of the same message, and GCM accepts
the tag it made. `srtp_alloc` then succeeds for every key of the right size
(`srtpAlloc_of_correct`). The assumptions can be met: `xorEnv` is a cipher of one key-stream byte,
the middle byte of the initialisation vector, with sums as tags (`xorEnv_correct`).
-/

namespace BareRTC.Srtp

structure Env.Correct (E : Env) : Prop where
  mem : E.mem
  encr : ∀ op d, ∃ ct, E.encr op d = some ct ∧ E.decr op ct = some d
  aad : ∀ op d, E.aad op d
  tag : ∀ op, ∃ t, E.tag op = some t ∧ E.verify op t
  hmac : ∀ k d, ∃ md, E.hmac k d = some md

section
variable {E : Env} (hE : E.Correct) {k s : Bytes}
include hE

theorem Env.Correct.srtpDerive_ok {n : Nat} (label : UInt8)
    (hn : n ≤ 32) (hk : k.length = 16 ∨ k.length = 32) (hs : s.length ≤ 16) :
    ∃ out, srtpDerive E n label k s = .ok out := by
  unfold srtpDerive
  rw [if_neg (by omega)]
  dsimp only
  rw [if_neg (by omega), if_neg (by simp [hE.mem])]
  obtain ⟨ct, hct, -⟩ := hE.encr ⟨.CTR, k, (s ++ List.replicate (16 - s.length) 0).set 7
    ((s ++ List.replicate (16 - s.length) 0).getD 7 0 ^^^ label), [], []⟩ (List.replicate n 0)
  rw [hct]
  exact ⟨ct, rfl⟩

theorem Env.Correct.compInit_ok (offs : UInt8) {tagLen : Nat} (enc hash : Bool)
    (mode : AesMode) (hk : k.length = 16 ∨ k.length = 32) (hs : s.length ≤ 16)
    (ht : tagLen ≤ 20) : ∃ comp, compInit E offs k s tagLen enc hash mode = .ok comp := by
  obtain ⟨kE, hkE⟩ := hE.srtpDerive_ok (0x00 + offs) (show k.length ≤ 32 by omega) hk hs
  obtain ⟨kA, hkA⟩ := hE.srtpDerive_ok (0x01 + offs) (show 20 ≤ 32 by omega) hk hs
  obtain ⟨kS, hkS⟩ := hE.srtpDerive_ok (0x02 + offs) (show 14 ≤ 32 by omega) hk hs
  unfold compInit
  simp only [bind, Except.bind, pure, Except.pure, throw, throwThe, MonadExceptOf.throw,
    MAX_KEYLEN, SHA_DIGEST_LENGTH, hkE, hkA, hkS, hE.mem]
  rw [if_neg (by omega), if_neg (by omega)]
  exact ⟨_, rfl⟩

theorem srtpAlloc_of_correct (suite : Suite) {key : Bytes}
    (hkey : key.length = suite.params.cipherBytes + suite.params.saltBytes) :
    ∃ srtp, srtpAlloc E suite key = .ok srtp := by
  have hk : (key.take suite.params.cipherBytes).length = 16 ∨ (key.take suite.params.cipherBytes).length = 32 := by
    rw [List.length_take, hkey]
    cases suite <;> simp [Suite.params]
  have hs : (key.drop suite.params.cipherBytes).length ≤ 16 := by
    rw [List.length_drop, hkey]
    cases suite <;> simp [Suite.params]
  have ht : suite.params.authBytes ≤ 20 := by cases suite <;> simp [Suite.params]
  obtain ⟨rtp, hrtp⟩ := hE.compInit_ok 0 true suite.params.hash suite.params.mode hk hs ht
  obtain ⟨rtcp, hrtcp⟩ := hE.compInit_ok 3 true suite.params.hash suite.params.mode hk hs ht
  unfold srtpAlloc
  simp only [bind, Except.bind, pure, Except.pure, throw, throwThe, MonadExceptOf.throw]
  rw [if_neg (by simp [hkey]), if_neg (by simp [hE.mem])]
  simp only [hrtp, Bool.not_false, hrtcp]
  exact ⟨_, rfl⟩

end

/-! ## A library that meets the assumptions -/

def keyByte (op : AesOp) : UInt8 := op.iv.getD (op.iv.length / 2) 0

def sumTag (b : Bytes) (n : Nat) : Bytes := List.replicate n (b.foldr (· + ·) 0)

def gcmSum (op : AesOp) : Bytes := sumTag (keyByte op :: (op.key ++ op.aad ++ op.text)) 16

def xorEnv : Env where
  encr op d := some (d.map (· ^^^ keyByte op))
  decr op d := some (d.map (· ^^^ keyByte op))
  aad _ _ := true
  tag op := some (gcmSum op)
  verify op t := t == gcmSum op
  hmac k d := some (sumTag (k ++ d) 20)
  length_encr op d c h := by cases h; simp
  length_decr op d c h := by cases h; simp
  length_tag op t h := by cases h; simp [gcmSum, sumTag]
  length_hmac k d md h := by cases h; simp [sumTag]
  mem := true

theorem xorEnv_correct : xorEnv.Correct where
  mem := rfl
  encr op d := by
    refine ⟨_, rfl, ?_⟩
    simp only [xorEnv, List.map_map, Function.comp_def, UInt8.xor_assoc, UInt8.xor_self, UInt8.xor_zero,
      List.map_id_fun', id_eq]
  aad _ _ := rfl
  tag op := ⟨_, rfl, by simp [xorEnv]⟩
  hmac _ _ := ⟨_, rfl⟩

def zeroKey (suite : Suite) : Bytes := List.replicate (suite.params.cipherBytes + suite.params.saltBytes) 0

theorem srtpAlloc_zeroKey (suite : Suite) : ∃ srtp, srtpAlloc xorEnv suite (zeroKey suite) = .ok srtp :=
  srtpAlloc_of_correct xorEnv_correct suite List.length_replicate

def xorSession (suite : Suite) : Session :=
  (srtpAlloc xorEnv suite (zeroKey suite)).toOption.get (by
    obtain ⟨srtp, h⟩ := srtpAlloc_zeroKey suite
    simp [h, Except.toOption])

theorem srtpAlloc_xorSession (suite : Suite) : srtpAlloc xorEnv suite (zeroKey suite) = .ok (xorSession suite) := by
  obtain ⟨srtp, h⟩ := srtpAlloc_zeroKey suite
  simp [xorSession, h, Except.toOption]

theorem xorSession_of (suite : Suite) : (xorSession suite).Of suite := ⟨_, _, _, srtpAlloc_xorSession suite, rfl, rfl⟩

end BareRTC.Srtp
