import Vax.Memory.Fetch
import Vax.Proofs.Memory.Fields
/-!
# What a fetch takes from the instruction stream

`Takes` ties a fetch to the fields that it reads: they decide its value,
nothing behind them does, and without all of them there is none.  A sequence
of fetches takes the fields of each in turn.
-/

namespace Vax.Fetch

variable {α β : Type}

theorem run_number_ok {m : Memory} {address : UInt32} {n : Nat} {bytes : List UInt8}
    (h : m.slice address n = .ok bytes) :
    (number m n).run address = .ok (LittleEndian.ofBytes bytes, address + UInt32.ofNat n) := by
  change (m.readNat address n >>= fun value => pure (value, address + UInt32.ofNat n)) = _
  rw [Memory.readNat, h]
  rfl

theorem run_number_error {m : Memory} {address : UInt32} {n : Nat} {e : OutOfRange}
    (h : m.slice address n = .error e) : (number m n).run address = .error e := by
  change (m.readNat address n >>= fun value => pure (value, address + UInt32.ofNat n)) = _
  rw [Memory.readNat, h]
  rfl

/-- At `address` the fetch reads these fields and gives `value`: it does so in
every image that holds them, and fails in every image that breaks off inside
them. -/
structure Takes (f : Memory → Fetch α) (address : UInt32) (fields : List (List UInt8))
    (value : α) : Prop where
  run : ∀ m, m.Holds address fields →
    (f m).run address = .ok (value, address + UInt32.ofNat fields.flatten.length)
  fails : ∀ m, m.BreaksOff address fields → ∃ e, (f m).run address = .error e

namespace Takes

theorem pure (address : UInt32) (value : α) :
    Takes (fun _ => Pure.pure value) address [] value where
  run m _ := by
    have hend : address + UInt32.ofNat ([] : List UInt8).length = address :=
      UInt32.add_zero address
    rw [List.flatten_nil, hend]
    rfl
  fails m h := h.elim

theorem bind {f : Memory → Fetch α} {g : α → Memory → Fetch β} {address : UInt32}
    {left right : List (List UInt8)} {a : α} {b : β} (hf : Takes f address left a)
    (hg : Takes (g a) (address + UInt32.ofNat left.flatten.length) right b) :
    Takes (fun m => f m >>= fun a => g a m) address (left ++ right) b where
  run m h := by
    obtain ⟨hleft, hright⟩ := Memory.holds_append.1 h
    rw [StateT.run_bind, hf.run m hleft]
    change (g a m).run _ = _
    rw [hg.run m hright, List.flatten_append, List.length_append, UInt32.ofNat_add,
      UInt32.add_assoc]
  fails m h := by
    rw [StateT.run_bind]
    rcases Memory.breaksOff_append.1 h with hleft | ⟨hleft, hright⟩
    · obtain ⟨e, he⟩ := hf.fails m hleft
      exact ⟨e, by rw [he]; rfl⟩
    · obtain ⟨e, he⟩ := hg.fails m hright
      refine ⟨e, ?_⟩
      rw [hf.run m hleft]
      exact he

/-- A fetch may look at the position first. -/
theorem position_bind {g : UInt32 → Memory → Fetch β} {address : UInt32}
    {fields : List (List UInt8)} {b : β} (hg : Takes (g address) address fields b) :
    Takes (fun m => Fetch.position >>= fun position => g position m) address fields b where
  run m h := hg.run m h
  fails m h := hg.fails m h

/-- A fetch whose value is put to use without reading on. -/
theorem bind_pure {f : Memory → Fetch α} {address : UInt32} {fields : List (List UInt8)} {a : α}
    {g : α → β} (hf : Takes f address fields a) :
    Takes (fun m => f m >>= fun a => Pure.pure (g a)) address fields (g a) := by
  have h := hf.bind (g := fun a _ => Pure.pure (g a)) (Takes.pure _ (g a))
  rwa [List.append_nil] at h

theorem map {f : Memory → Fetch α} {address : UInt32} {fields : List (List UInt8)} {a : α}
    (g : α → β) (hf : Takes f address fields a) :
    Takes (fun m => g <$> f m) address fields (g a) where
  run m h := by rw [StateT.run_map, hf.run m h]; rfl
  fails m h := by
    obtain ⟨e, he⟩ := hf.fails m h
    exact ⟨e, by rw [StateT.run_map, he]; rfl⟩

theorem number (address : UInt32) (field : List UInt8) :
    Takes (fun m => Fetch.number m field.length) address [field] (LittleEndian.ofBytes field) where
  run m h := by
    simpa using run_number_ok h.1
  fails m h := by
    rcases h with h | h
    · exact ⟨_, run_number_error (Memory.slice_eq_error h)⟩
    · exact h.2.elim

theorem byte (address : UInt32) (value : UInt8) :
    Takes Fetch.byte address [[value]] value := by
  change Takes (fun m => UInt8.ofNat <$> Fetch.number m 1) address [[value]] value
  simpa [LittleEndian.ofBytes] using (number address [value]).map UInt8.ofNat

theorem long (address value : UInt32) :
    Takes Fetch.long address [LittleEndian.toBytes 4 value.toNat] value := by
  have hvalue : value.toNat % 256 ^ 4 = value.toNat := Nat.mod_eq_of_lt value.toNat_lt
  change Takes (fun m => UInt32.ofNat <$> Fetch.number m 4) address _ value
  simpa [LittleEndian.ofBytes_toBytes, hvalue] using
    (number address (LittleEndian.toBytes 4 value.toNat)).map UInt32.ofNat

end Takes

end Vax.Fetch
