import BareRTC.Re.Rest

/-!
# What bytes spell

`Leads f x g`: the decoder `f` reads the bytes `x` and goes on as `g`, whatever follows them.
`Spells f x a`: it reads `x` as `a` and is done. `Opens f n P`: it reads any `n` bytes and goes on
as a decoder that `P` holds of. `Takes f n`: whenever it succeeds it has read `n` bytes, and they
alone made the result. All of them are closed under sequencing; a length check holds for the reads
it guards (`Leads.require`, `Takes.require`).
-/

namespace BareRTC.Mbuf

open List

variable {α β : Type}

def Leads (f : MbufM α) (x : Bytes) (g : MbufM α) : Prop :=
  ∀ ⦃mb : Mbuf⦄ ⦃t : Bytes⦄, mb.Rest (x ++ t) → f mb = g (mb.setPos (mb.pos + x.length))

def Spells (f : MbufM α) (x : Bytes) (a : α) : Prop := Leads f x (pure a)

variable {f g h : MbufM α} {k : α → MbufM β} {x y : Bytes} {a : α} {b : β} {n : Nat} {m : Nat} {mb : Mbuf}

theorem setPos_add :
    (mb.setPos (mb.pos + n)).setPos ((mb.setPos (mb.pos + n)).pos + m) = mb.setPos (mb.pos + (n + m)) := by
  rw [← Nat.add_assoc]
  rfl

theorem Rest.skip {t : Bytes} (hr : mb.Rest (x ++ t)) : (mb.setPos (mb.pos + x.length)).Rest t := by
  have := hr.drop (n := x.length) (by rw [length_append]; omega)
  rwa [drop_left] at this

namespace Leads

theorem refl : Leads f [] f := fun _ _ _ => rfl

theorem trans (hf : Leads f x g) (hg : Leads g y h) : Leads f (x ++ y) h := by
  intro mb t hr
  rw [append_assoc] at hr
  rw [hf hr, hg hr.skip, length_append, setPos_add]

theorem bind (hf : Spells f x a) : Leads (f >>= k) x (k a) := fun _ _ hr => bind_of_ok (hf hr)

theorem require {k : Unit → MbufM α} (hn : n ≤ x.length) (hk : Leads (k ()) x g) : Leads (require n >>= k) x g := by
  intro mb t hr
  refine (bind_of_ok (hr.require_of_le 0 (Nat.zero_le _) (by rw [length_append]; omega))).trans ?_
  exact hk hr

end Leads

namespace Spells

theorem pure (a : α) : Spells (pure a) [] a := Leads.refl

theorem bind (hf : Spells f x a) (hk : Spells (k a) y b) : Spells (f >>= k) (x ++ y) b := (Leads.bind hf).trans hk

theorem map (hf : Spells f x a) (g : α → β) : Spells (do return g (← f)) x (g a) := by
  have h := hf.bind (k := fun a => Pure.pure (g a)) (pure (g a))
  rwa [append_nil] at h

theorem require {k : Unit → MbufM α} (hn : n ≤ x.length) (hk : Spells (k ()) x a) : Spells (require n >>= k) x a :=
  Leads.require hn hk

theorem readMem (hx : x.length = n) : Spells (readMem n) x x := by
  intro mb t hr
  subst hx
  have := hr.readMem 0 (n := x.length) (by rw [length_append]; omega)
  rw [Nat.zero_add, BareRTC.slice, drop_zero, take_left] at this
  exact this

theorem readNat (hx : x.length = n) : Spells (readNat n) x (beNat x) := by
  intro mb t hr
  rw [Mbuf.readNat, readMem hx hr]
  rfl

theorem readU8 (hx : x.length = 1) : Spells readU8 x (UInt8.ofNat (beNat x)) := (readNat hx).map _

theorem readU16 (hx : x.length = 2) : Spells readU16 x (UInt16.ofNat (beNat x)) := (readNat hx).map _

theorem readU32 (hx : x.length = 4) : Spells readU32 x (UInt32.ofNat (beNat x)) := (readNat hx).map _

theorem readU8_byte (v : UInt8) : Spells Mbuf.readU8 [v] v := by
  have := readU8 (x := [v]) rfl
  simpa [beNat] using this

theorem ofNat_be16 (v : UInt16) : UInt16.ofNat (beNat (beBytes 2 v.toNat)) = v := by
  rw [beNat_beBytes, Nat.mod_eq_of_lt (show v.toNat < 256 ^ 2 from v.toNat_lt), UInt16.ofNat_toNat]

theorem ofNat_be32 (v : UInt32) : UInt32.ofNat (beNat (beBytes 4 v.toNat)) = v := by
  rw [beNat_beBytes, Nat.mod_eq_of_lt (show v.toNat < 256 ^ 4 from v.toNat_lt), UInt32.ofNat_toNat]

theorem advance (hx : x.length = n) : Spells (advance n) x () := by
  intro mb t _
  subst hx
  rfl

end Spells

/-! ## Decoders of a fixed length -/

def Opens (f : MbufM α) (n : Nat) (P : MbufM α → Prop) : Prop := ∀ x : Bytes, x.length = n → ∃ g, Leads f x g ∧ P g

/-- Any `n` bytes are read. -/
def Eats (f : MbufM α) (n : Nat) : Prop := ∀ x : Bytes, x.length = n → ∃ a, Spells f x a

namespace Opens

theorem done {P : MbufM α → Prop} (h : P f) : Opens f 0 P := by
  intro x hx
  obtain rfl := length_eq_zero_iff.1 hx
  exact ⟨f, Leads.refl, h⟩

theorem bind {P : MbufM β → Prop} (hf : Eats f n) (hk : ∀ a, Opens (k a) m P) : Opens (f >>= k) (n + m) P := by
  intro x hx
  obtain ⟨a, ha⟩ := hf (x.take n) (by rw [length_take]; omega)
  obtain ⟨g, hg, hP⟩ := hk a (x.drop n) (by rw [length_drop]; omega)
  refine ⟨g, ?_, hP⟩
  rw [← take_append_drop n x]
  exact (Leads.bind ha).trans hg

end Opens

namespace Eats

theorem pure (a : α) : Eats (pure a) 0 := by
  intro x hx
  obtain rfl := length_eq_zero_iff.1 hx
  exact ⟨a, Spells.pure a⟩

theorem bind (hf : Eats f n) (hk : ∀ a, Eats (k a) m) : Eats (f >>= k) (n + m) := by
  intro x hx
  obtain ⟨a, ha⟩ := hf (x.take n) (by rw [length_take]; omega)
  obtain ⟨b, hb⟩ := hk a (x.drop n) (by rw [length_drop]; omega)
  refine ⟨b, ?_⟩
  rw [← take_append_drop n x]
  exact ha.bind hb

theorem map (hf : Eats f n) {g : α → β} : Eats (do return g (← f)) n := hf.bind fun a => pure (g a)

theorem readU16 : Eats readU16 2 := fun _ hx => ⟨_, Spells.readU16 hx⟩

theorem readU32 : Eats readU32 4 := fun _ hx => ⟨_, Spells.readU32 hx⟩

theorem readMem : Eats (readMem n) n := fun x hx => ⟨x, Spells.readMem hx⟩

end Eats

def Takes (f : MbufM α) (n : Nat) : Prop :=
  ∀ ⦃mb mb' : Mbuf⦄ ⦃r : Bytes⦄ ⦃a : α⦄, mb.Rest r → f mb = .ok a mb' → n ≤ r.length ∧ Spells f (r.take n) a

theorem Leads.apply (hf : Leads f (x.take n) g) (hn : n ≤ x.length) (hr : mb.Rest x) :
    f mb = g (mb.setPos (mb.pos + n)) := by
  have hsplit : mb.Rest (x.take n ++ x.drop n) := by
    rw [take_append_drop]
    exact hr
  rw [hf hsplit, length_take_of_le hn]

theorem Spells.apply (hf : Spells f (x.take n) a) (hn : n ≤ x.length) (hr : mb.Rest x) :
    f mb = .ok a (mb.setPos (mb.pos + n)) := Leads.apply hf hn hr

theorem Spells.apply_self (hf : Spells f x a) (hr : mb.Rest x) (hn : x.length = n) :
    f mb = .ok a (mb.setPos (mb.pos + n)) := by
  subst hn
  refine hf (t := []) ?_
  rwa [append_nil]

namespace Takes

theorem eq (hf : Takes f n) {mb' : Mbuf} (hr : mb.Rest x) (ha : f mb = .ok a mb') : mb' = mb.setPos (mb.pos + n) := by
  obtain ⟨hn, hs⟩ := hf hr ha
  rw [hs.apply hn hr] at ha
  cases ha
  rfl

theorem pure (a : α) : Takes (pure a) 0 := by
  intro mb mb' r b _ hb
  cases hb
  exact ⟨Nat.zero_le _, Spells.pure a⟩

theorem bind (hf : Takes f n) (hk : ∀ a, Takes (k a) m) : Takes (f >>= k) (n + m) := by
  intro mb mb' r b hr hb
  obtain ⟨a, mb1, ha, hb⟩ := bind_eq_ok.1 hb
  obtain ⟨hn, hs⟩ := hf hr ha
  obtain rfl := hf.eq hr ha
  obtain ⟨hm, hs'⟩ := hk a (hr.drop hn) hb
  rw [length_drop] at hm
  refine ⟨by omega, ?_⟩
  rw [take_add]
  exact hs.bind hs'

theorem map (hf : Takes f n) {g : α → β} : Takes (do return g (← f)) n := hf.bind fun a => pure (g a)

theorem require {k : Unit → MbufM α} (hk : Opens (k ()) n (Takes · m)) : Takes (Mbuf.require n >>= k) (n + m) := by
  intro mb mb' r a hr ha
  obtain ⟨hn, ha⟩ := hr.require_ok ha
  have htake := length_take_of_le hn
  obtain ⟨g, hlead, hg⟩ := hk (r.take n) htake
  rw [hlead.apply hn hr] at ha
  obtain ⟨hm, hs⟩ := hg (hr.drop hn) ha
  rw [length_drop] at hm
  refine ⟨by omega, ?_⟩
  rw [take_add]
  exact Leads.require (by rw [length_append, htake]; omega) (hlead.trans hs)

theorem of_eats {k : Unit → MbufM α} (hk : Eats (k ()) n) : Takes (Mbuf.require n >>= k) n := by
  refine require (m := 0) fun x hx => ?_
  obtain ⟨a, ha⟩ := hk x hx
  exact ⟨Pure.pure a, ha, pure a⟩

end Takes
end BareRTC.Mbuf
