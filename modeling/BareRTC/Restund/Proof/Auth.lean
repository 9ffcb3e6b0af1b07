import BareRTC.Restund.Proof.Relay
import Mathlib.Data.List.TakeWhile

/-!
# Allocations change on authorised requests only

A nonce that the server prints is read back as its digest and its time (`nonceRead_mknonce`), so
that the digest in a nonce that is accepted gives the response that it was issued with. The text of
a nonce is not unique: zeros before the time and the case of the digits do not count.
-/

namespace BareRTC.Restund

open List

open Sdp (Sa)
open Stun (Attrib AttrVal Msg stunMsgChkMi)

/-! ## Nonces are read back -/

theorem xvalue_xdigit : ∀ n < 16, xvalue (xdigit n) = some (UInt64.ofNat n) := by decide

theorem xdigit_ne_zero : ∀ n < 16, xdigit n ≠ 0 := by decide

variable {d : Bytes}

theorem readKey_printBytes : readKey (printBytes d) = d := by
  have hbyte : ∀ b : UInt8, (chHex (xdigit (b.toNat / 16)) <<< 4) + chHex (xdigit (b.toNat % 16)) = b := by
    refine forall_uint8 ?_
    decide +kernel
  induction d with
  | nil => rfl
  | cons b d ih =>
    show _ :: readKey (printBytes d) = b :: d
    rw [ih, hbyte]

theorem length_printBytes : (printBytes d).length = 2 * d.length := by
  induction d with
  | nil => rfl
  | cons b d ih =>
    show (printBytes d).length + 1 + 1 = _
    rw [ih, length_cons]
    omega

def xread (pl : Bytes) : Option UInt64 :=
  pl.foldl (fun v c => v.bind fun v => (xvalue c).map fun d => 16 * v + d) (some 0)

theorem xread_printHex : ∀ k n : Nat, n < 16 ^ (k + 1) → xread (printHex (k + 1) n) = some (UInt64.ofNat n)
  | k, n, hn => by
    have hhead : xread (if n / 16 = 0 then [] else printHex k (n / 16)) = some (UInt64.ofNat (n / 16)) := by
      split
      · rename_i h0
        rw [h0]
        rfl
      rename_i h0
      cases k with
      | zero => omega
      | succ k => exact xread_printHex k (n / 16) (by rw [pow_succ] at hn; omega)
    have hlast : 16 * UInt64.ofNat (n / 16) + UInt64.ofNat (n % 16) = UInt64.ofNat n := by
      calc 16 * UInt64.ofNat (n / 16) + UInt64.ofNat (n % 16)
          = UInt64.ofNat (16 * (n / 16) + n % 16) := by rw [UInt64.ofNat_add, UInt64.ofNat_mul]; rfl
        _ = UInt64.ofNat n := by rw [Nat.div_add_mod]
    rw [printHex, xread, foldl_append]
    show ((xread _).bind fun v => _) = _
    rw [hhead, xvalue_xdigit _ (Nat.mod_lt n (by decide))]
    exact congrArg some hlast

theorem length_printHex : ∀ k n : Nat, 1 ≤ (printHex (k + 1) n).length ∧ (printHex (k + 1) n).length ≤ k + 1
  | k, n => by
    rw [printHex, length_append, length_singleton]
    split
    · simp
    cases k with
    | zero => simp [printHex]
    | succ k =>
      have hrest := length_printHex k (n / 16)
      omega

theorem printHex_ne_zero : ∀ k n : Nat, ∀ c ∈ printHex k n, c ≠ 0
  | 0, _, _, hc => absurd hc not_mem_nil
  | k + 1, n, c, hc => by
    rw [printHex] at hc
    rcases mem_append.1 hc with hc | hc
    · split at hc
      · cases hc
      · exact printHex_ne_zero k (n / 16) c hc
    · rw [mem_singleton.1 hc]
      exact xdigit_ne_zero _ (Nat.mod_lt n (by decide))

theorem printBytes_ne_zero : ∀ c ∈ printBytes d, c ≠ 0 := by
  intro c hc
  obtain ⟨b, -, hc⟩ := mem_flatMap.1 hc
  have hb := b.toNat_lt
  rcases mem_pair.1 hc with rfl | rfl <;> exact xdigit_ne_zero _ (by omega)

theorem nonceRead_mknonce (au : Auth) (now : Nat) (src : Sa) :
    nonceRead (mknonce au now src) = some (au.key (UInt64.ofNat now) (saHashAddr src), UInt64.ofNat now) := by
  have hkey : (printBytes (au.key (UInt64.ofNat now) (saHashAddr src))).length = 32 := by
    rw [length_printBytes, Auth.key, (au.md5 _).2]
  have hcstr : cstr (mknonce au now src) = mknonce au now src := by
    refine takeWhile_eq_self_iff.2 fun c hc => ?_
    rcases mem_append.1 hc with hc | hc
    · simpa using printBytes_ne_zero c hc
    · simpa using printHex_ne_zero _ _ c hc
  have hdigits : 1 ≤ (printHex 16 (UInt64.ofNat now).toNat).length ∧
      (printHex 16 (UInt64.ofNat now).toNat).length ≤ 16 := length_printHex 15 _
  have hlen : (mknonce au now src).length = 32 + (printHex 16 (UInt64.ofNat now).toNat).length := by
    rw [mknonce, length_append, hkey]
  have htime : plX64 (printHex 16 (UInt64.ofNat now).toNat) = UInt64.ofNat now := by
    show (xread _).getD 0 = _
    rw [xread_printHex 15 _ (UInt64.toNat_lt _), UInt64.ofNat_toNat]
    rfl
  unfold nonceRead
  simp only [hcstr]
  rw [if_neg (by omega), mknonce, take_left' hkey, drop_left' hkey, readKey_printBytes, htime]

/-! ## Requests that are authorised -/

variable {ev : Event} {msg : Msg}

section
variable (cfg : Config)

def Issues (src : Sa) (nonce : Bytes) (s : Server) (ev : Event) : Prop :=
  ∃ via req rep, via.src = src ∧ Out.reply via req rep none ∈ (step cfg s ev).2 ∧ (.nonce, .str nonce) ∈ rep.attrs

def Issued (Like : Bytes → Bytes → Prop) (evs : List Event) (nonce : Bytes) (src : Sa) (now : Nat) : Prop :=
  Once (step cfg) (fun s ev => ∃ src₀ nonce₀, Issues cfg src₀ nonce₀ s ev ∧ Like nonce nonce₀ ∧
    saHashAddr src₀ = saHashAddr src ∧ ev.env.now ≤ now ∧ now ≤ ev.env.now + cfg.auth.nonceExpiry.toNat) {} evs

def Authorised (Like : Bytes → Bytes → Prop) (evs : List Event) (ev : Event) (al : Allocation) : Prop :=
  ∃ env via msg user name nonce, ev.request = some (env, via, msg) ∧ al.cmp via ∧
    msgAttr msg .username valStr = some user ∧ al.username = some name ∧ cstr user = cstr name ∧
    (∃ ha1, env.ha1 (cstr user) = some ha1 ∧ (stunMsgChkMi cfg.auth.hash ha1 msg).1 = none) ∧
    msgAttr msg .nonce valStr = some nonce ∧ Issued cfg Like evs nonce via.src env.now

def SameNonce (nonce nonce₀ : Bytes) : Prop := (nonceRead nonce).isSome ∧ nonceRead nonce = nonceRead nonce₀

def Unforged (evs : List Event) (ev : Event) : Prop :=
  ∀ env via msg nonce time, ev.request = some (env, via, msg) →
    msgAttr msg .nonce valStr = some nonce →
    nonceRead nonce = some (cfg.auth.key time (saHashAddr via.src), time) →
    Once (step cfg) (fun s ev => ∃ src₀ nonce₀, Issues cfg src₀ nonce₀ s ev ∧
      UInt64.ofNat ev.env.now = time ∧ saHashAddr src₀ = saHashAddr via.src) {} evs

def ChangesAuthorised (Like : Bytes → Bytes → Prop) (evs : List Event) (ev : Event) : Prop :=
  (∀ al' ∈ (step cfg (exec (step cfg) {} evs) ev).1.allocs,
    (∃ al ∈ (exec (step cfg) {} evs).allocs, Kept al al') ∨ Authorised cfg Like evs ev al') ∧
  ∀ al ∈ (exec (step cfg) {} evs).allocs,
    (∃ al' ∈ (step cfg (exec (step cfg) {} evs) ev).1.allocs, al'.id = al.id) ∨ Expires ev al

variable {cfg}

theorem Issues.eq_mknonce {src : Sa} {nonce : Bytes} {s : Server} (hs : s.Ok)
    (h : Issues cfg src nonce s ev) : nonce = mknonce cfg.auth ev.env.now src := by
  obtain ⟨via, req, rep, rfl, hout, hnonce⟩ := h
  cases (step_spec cfg hs ev).2 _ hout with
  | reply hev hmk =>
    subst hev
    exact hmk nonce hnonce

theorem issued_of_valid {evs : List Event} (hun : Unforged cfg evs ev)
    {env : Env} {via : Via} {nonce : Bytes} (hreq : ev.request = some (env, via, msg))
    (hnonce : msgAttr msg .nonce valStr = some nonce)
    (hvalid : nonceValidate cfg.auth nonce env.now via.src) :
    Issued cfg SameNonce evs nonce via.src env.now := by
  unfold nonceValidate at hvalid
  split at hvalid
  · cases hvalid
  rename_i key time hread
  split at hvalid
  · cases hvalid
  rename_i hkey
  obtain rfl : key = cfg.auth.key time (saHashAddr via.src) := by simpa using hkey
  obtain ⟨pre, ev0, post, hevs, src0, nonce0, hissues, htime, hhash⟩ :=
    hun env via msg nonce time hreq hnonce hread
  have hread0 := nonceRead_mknonce cfg.auth ev0.env.now src0
  rw [← hissues.eq_mknonce (exec_ok cfg pre), htime, hhash, ← hread] at hread0
  refine ⟨pre, ev0, post, hevs, src0, nonce0, hissues, ⟨by rw [hread]; rfl, hread0.symm⟩, hhash, ?_⟩
  have hage : (UInt64.ofNat env.now - time).toNat < 2 ^ 63 ∧
      (UInt64.ofNat env.now - time).toNat ≤ cfg.auth.nonceExpiry.toNat := by simpa using hvalid
  have hnow := env.now_lt
  have hnow0 := ev0.env.now_lt
  rw [← htime, UInt64.toNat_sub, UInt64.toNat_ofNat', UInt64.toNat_ofNat'] at hage
  omega

theorem exec_username (hfirst : AuthFirst cfg.mods) (evs : List Event) :
    ∀ al ∈ (exec (step cfg) {} evs).allocs, ∃ name, al.username = some name := by
  have h0 : ∀ al ∈ ({} : Server).allocs, ∃ name, al.username = some name := by simp
  refine @exec_history _ _ _ (step cfg) {} (fun _ s => ∀ al ∈ s.allocs, ∃ name, al.username = some name) h0 ?_ evs
  intro evs ev ih al' hal'
  rcases (step_spec cfg (exec_ok cfg evs) ev).1.from_ al' hal' with
    ⟨al, hal, hkept⟩ | ⟨env, via, msg, hreq, ctx, hpassed, hgain⟩
  · rw [hkept.username]
    exact ih al hal
  obtain ⟨-, user, nonce, hauth⟩ := hpassed hfirst
  cases hgain with
  | created hnew => exact ⟨user, hnew.username.trans hauth.hasUser⟩
  | @served al hmet hal _ _ _ heq =>
    rw [heq, (allocationRequest_serves cfg.turnd env ctx via msg hmet al).fixed.same.username]
    exact ih al hal

theorem cstr_eq_of_credentials {ctx : Msgctx} {al : Allocation} {user name : Bytes}
    (h : wrongCredentials ctx msg al = false) (hkey : ctx.key.isSome) (hname : al.username = some name)
    (huser : msgAttr msg .username valStr = some user) : cstr user = cstr name := by
  obtain ⟨key, hkey⟩ := Option.isSome_iff_exists.1 hkey
  simpa [wrongCredentials, hname, hkey, huser] using h

/-- With the auth handler before the turn handler, in every run in which no nonce is forged:
allocations are created, refreshed and given permissions and channels by authorised requests
only. -/
theorem changes_authorised (hfirst : AuthFirst cfg.mods) (evs : List Event) (ev : Event)
    (hun : Unforged cfg evs ev) : ChangesAuthorised cfg SameNonce evs ev := by
  have hmoves := (step_spec cfg (exec_ok cfg evs) ev).1
  refine ⟨fun al' hal' => (hmoves.from_ al' hal').imp (fun ⟨al, hal, hkept⟩ => ⟨al, hal, hkept.toKept⟩) ?_, hmoves.stays⟩
  rintro ⟨env, via, msg, hreq, ctx, hpassed, hgain⟩
  obtain ⟨hkey, user, nonce, hauth⟩ := hpassed hfirst
  have hissued := issued_of_valid hun hreq hauth.hasNonce hauth.valid
  cases hgain with
  | created hnew =>
    exact ⟨env, via, msg, user, user, nonce, hreq, hnew.cmp, hauth.hasUser, hnew.username.trans hauth.hasUser, rfl,
      hauth.integrity, hauth.hasNonce, hissued⟩
  | @served al hmet hal hcmp hcred _ heq =>
    have hsame := (allocationRequest_serves cfg.turnd env ctx via msg hmet al).fixed.same
    obtain ⟨name, hname⟩ := exec_username hfirst evs al hal
    have hcmp' : al'.cmp via := by
      rw [heq]
      simpa [Allocation.cmp, hsame.cliAddr, hsame.srvAddr, hsame.proto] using hcmp
    exact ⟨env, via, msg, user, name, nonce, hreq, hcmp', hauth.hasUser, (heq ▸ hsame.username).trans hname,
      cstr_eq_of_credentials hcred hkey hname hauth.hasUser, hauth.integrity, hauth.hasNonce, hissued⟩

end

/-! ### A run -/

def plainMd5 (d : Bytes) : { d : Bytes // d.length = 16 } :=
  ⟨(d.take 8 ++ d.drop 16 ++ List.replicate 16 0).take 16, by simp; omega⟩

def authServer : Config where
  turnd := relayConf
  auth := ⟨3600, 7, [0x72], [], plainMd5, openServer.auth.hash⟩
  mods := [.auth, .turn]
  nodup := by decide

theorem authServer_authFirst : AuthFirst authServer.mods := by
  intro pre post h
  cases pre with
  | nil => cases h
  | cons m pre => exact (List.cons.inj h).1 ▸ .head _

def firstRequest : Event :=
  .recv (calm 100 (by decide) fun _ => none) aClient (datagram (aMessage 3 8 [0, 0x19, 0, 4, 17, 0, 0, 0]))

def firstNonce : Bytes := mknonce authServer.auth 100 aClient.src

def paddedNonce : Bytes := firstNonce.take 32 ++ 48 :: firstNonce.drop 32

def secondRequest (nonce : Bytes) : Event :=
  .recv (calm 200 (by decide) fun _ => some []) aClient (datagram (aMessage 3 88
    ([0, 0x06, 0, 1, 0x61, 0, 0, 0] ++ [0, 0x14, 0, 1, 0x72, 0, 0, 0] ++ [0, 0x15, 0, UInt8.ofNat nonce.length] ++ nonce ++
      List.replicate (36 - nonce.length) 0 ++ [0, 0x19, 0, 4, 17, 0, 0, 0] ++ [0, 0x08, 0, 20] ++ List.replicate 20 0)))

def Event.nonce (ev : Event) : Option Bytes := ev.request.bind fun r => msgAttr r.2.2 .nonce valStr

theorem Event.nonce_eq {env : Env} {via : Via} {nonce : Bytes}
    (hreq : ev.request = some (env, via, msg)) (hnonce : msgAttr msg .nonce valStr = some nonce) :
    ev.nonce = some nonce := by rw [Event.nonce, hreq]; exact hnonce

theorem firstRequest_issues : Issues authServer aClient.src firstNonce {} firstRequest :=
  ⟨aClient, ⟨3, 8, Stun.magicCookie, [1, 2, 3, 4, 5, 6, 7, 8, 9, 10, 11, 12]⟩, _, rfl, .head _, .tail _ (.head _)⟩

theorem secondRequest_via {nonce : Bytes} {env : Env} {via : Via}
    (h : (secondRequest nonce).request = some (env, via, msg)) : via = aClient := by
  obtain ⟨mb, hmb⟩ := Event.recv_of_request h
  cases hmb
  rfl

theorem secondRequest_unforged {nonce : Bytes} (hnonce : (secondRequest nonce).nonce = some nonce)
    (hread : nonceRead nonce = nonceRead firstNonce) :
    Unforged authServer [firstRequest] (secondRequest nonce) := by
  intro env via msg nonce' time hreq hattr hkey
  obtain rfl := Option.some.inj (hnonce.symm.trans (Event.nonce_eq hreq hattr))
  rw [hread, firstNonce, nonceRead_mknonce] at hkey
  have htime := (Prod.mk.inj (Option.some.inj hkey)).2
  exact ⟨[], firstRequest, [], rfl, aClient.src, firstNonce, firstRequest_issues, htime,
    by rw [secondRequest_via hreq]⟩

/-- The client takes the nonce of the response, and has an allocation. -/
theorem changes_authorised_allocate :
    (step authServer (exec (step authServer) {} [firstRequest]) (secondRequest firstNonce)).1.allocs.length = 1 ∧
      ChangesAuthorised authServer SameNonce [firstRequest] (secondRequest firstNonce) :=
  ⟨by decide +kernel, changes_authorised authServer_authFirst _ _
    (secondRequest_unforged (by decide +kernel) rfl)⟩

/-- The nonce with a zero before the time was never issued, and the client has an allocation with
it. -/
theorem unissued_nonce_accepted :
    AuthFirst authServer.mods ∧ Unforged authServer [firstRequest] (secondRequest paddedNonce) ∧
      ¬ ChangesAuthorised authServer (fun nonce nonce₀ => cstr nonce = cstr nonce₀) [firstRequest]
        (secondRequest paddedNonce) := by
  have hnonce : (secondRequest paddedNonce).nonce = some paddedNonce := by decide +kernel
  refine ⟨authServer_authFirst, secondRequest_unforged hnonce (by decide +kernel), ?_⟩
  rintro ⟨hnew, -⟩
  have hone : (step authServer (exec (step authServer) {} [firstRequest])
      (secondRequest paddedNonce)).1.allocs.length = 1 := by decide +kernel
  have hnone : (exec (step authServer) {} [firstRequest]).allocs = [] := by decide +kernel
  obtain ⟨al', hal'⟩ := exists_mem_of_length_pos (hone ▸ Nat.one_pos)
  rcases hnew al' hal' with ⟨al, hal, -⟩ | ⟨env, via, msg, -, -, nonce, hreq, -, -, -, -, -, hattr, hissued⟩
  · rw [hnone] at hal
    cases hal
  obtain rfl := Option.some.inj (hnonce.symm.trans (Event.nonce_eq hreq hattr))
  obtain ⟨pre, ev0, post, hevs, src0, nonce₀, hissues, hlike, hhash, -⟩ := hissued
  obtain ⟨rfl, rfl, -⟩ : pre = [] ∧ ev0 = firstRequest ∧ post = [] := by
    cases pre with
    | nil => simpa [eq_comm] using hevs
    | cons a pre => simp at hevs
  have hmk : nonce₀ = firstNonce := by
    rw [hissues.eq_mknonce (exec_ok authServer [])]
    show printBytes (authServer.auth.key _ (saHashAddr src0)) ++ _ = _
    rw [hhash, secondRequest_via hreq]
    rfl
  rw [hmk] at hlike
  exact absurd hlike (by decide +kernel)

end BareRTC.Restund
