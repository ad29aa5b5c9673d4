import Vax.Proofs.Machine.Execution
import Vax.Proofs.Memory.Stores
/-!
# The stack

Longwords that are pushed lie one behind the other from the stack pointer on,
the last one first, and what lies above them stays as it was.
-/

namespace Vax

/-- The fields of longwords in memory. -/
def longFields (words : List UInt32) : List (List UInt8) :=
  words.map fun word => LittleEndian.toBytes 4 word.toNat

theorem length_longFields (words : List UInt32) :
    (longFields words).flatten.length = 4 * words.length := by
  induction words with
  | nil => rfl
  | cons word rest ih =>
      rw [longFields, List.map_cons, List.flatten_cons, List.length_append, ← longFields, ih,
        LittleEndian.length_toBytes, List.length_cons]
      omega

namespace Exec

/-! ## Pushing -/

theorem run_push_eq_ok {m after : Machine} {value : UInt32}
    (h : (push value).run m = .ok () after) :
    ∃ memory, m.memory.store (m.registers.sp - 4) (LittleEndian.toBytes 4 value.toNat) =
        .ok memory ∧
      after = { m with
        registers := m.registers.set Register.sp (m.registers.sp - 4), memory := memory } := by
  change (store (m.registers.sp - 4) (LittleEndian.toBytes 4 value.toNat)).run
    { m with registers := m.registers.set Register.sp (m.registers.sp - 4) } = _ at h
  obtain ⟨memory, hstore, rfl⟩ := run_store_eq_ok.1 h
  exact ⟨memory, hstore, rfl⟩

/-- From `start` on these longwords have been pushed, the first one last. -/
structure Pushed (start m : Machine) (words : List UInt32) : Prop where
  registers_eq : m.registers = start.registers.set Register.sp
    (start.registers.sp - UInt32.ofNat (4 * words.length))
  holds : m.memory.Holds m.registers.sp (longFields words)
  agrees : start.memory.AgreesOn m.memory start.registers.sp (2 ^ 32 - 4 * words.length)

namespace Pushed

variable {start m after : Machine} {words : List UInt32}

theorem nil (start : Machine) : Pushed start start [] where
  registers_eq := by
    change _ = start.registers.set Register.sp (start.registers.sp - 0)
    rw [UInt32.sub_zero]
    exact (start.registers.set_get Register.sp).symm
  holds := trivial
  agrees _ _ _ := rfl

theorem sp_eq (h : Pushed start m words) :
    m.registers.sp = start.registers.sp - UInt32.ofNat (4 * words.length) := by
  rw [h.registers_eq]
  exact Registers.get_set_self _ _ _

theorem get_eq (h : Pushed start m words) {r : Register} (hr : r ≠ Register.sp) :
    m.registers.get r = start.registers.get r := by
  rw [h.registers_eq]
  exact Registers.get_set_of_ne _ _ hr.symm

theorem flags_eq (h : Pushed start m words) : m.registers.flags = start.registers.flags := by
  rw [h.registers_eq]
  rfl

theorem push (h : Pushed start m words) {value : UInt32} (hroom : 4 * words.length + 4 ≤ 2 ^ 32)
    (hrun : (Exec.push value).run m = .ok () after) : Pushed start after (value :: words) := by
  obtain ⟨memory, hstore, rfl⟩ := run_push_eq_ok hrun
  have hlength := LittleEndian.length_toBytes 4 value.toNat
  have hsp : m.registers.sp - 4 =
      start.registers.sp - UInt32.ofNat (4 * (value :: words).length) := by
    rw [h.sp_eq, List.length_cons]
    apply UInt32.toNat_inj.1
    simp only [UInt32.toNat_sub, UInt32.toNat_ofNat', UInt32.reduceToNat]
    omega
  have hback : m.registers.sp - 4 + UInt32.ofNat 4 = m.registers.sp :=
    UInt32.sub_add_cancel _ _
  have hstored := Memory.agreesOn_store hstore
  rw [hlength, hback] at hstored
  refine ⟨?_, ?_, ?_⟩
  · change m.registers.set _ _ = _
    rw [h.registers_eq, Registers.set_set, ← h.registers_eq, hsp]
  · change memory.Holds ((m.registers.set _ _).get _) _
    rw [Registers.get_set_self]
    refine ⟨Memory.slice_store hstore, ?_⟩
    rw [hlength, hback]
    apply hstored.holds _ h.holds
    rw [length_longFields, UInt32.sub_self]
    change 0 + 4 * words.length ≤ 2 ^ 32 - 4
    omega
  · -- The store spares all but four bytes below the stack pointer of `m`, which lies below that
    -- of `start` by the words pushed before.
    have hdistance : (start.registers.sp - m.registers.sp).toNat = 4 * words.length := by
      rw [h.sp_eq]
      simp only [UInt32.toNat_sub, UInt32.toNat_ofNat']
      have hstart := start.registers.sp.toNat_lt
      omega
    have hself : (start.registers.sp - start.registers.sp).toNat = 0 := by
      rw [UInt32.sub_self]
      rfl
    have hbefore : start.memory.AgreesOn m.memory start.registers.sp
        (2 ^ 32 - 4 * (value :: words).length) :=
      h.agrees.mono (by rw [hself, List.length_cons]; omega)
    have hafter : m.memory.AgreesOn memory start.registers.sp
        (2 ^ 32 - 4 * (value :: words).length) :=
      hstored.mono (by rw [hdistance, List.length_cons]; omega)
    exact hbefore.trans hafter

/-- Registers are pushed with the values they had before anything was pushed. -/
theorem pushAll {rs : List Register} (h : Pushed start m words)
    (hrs : ∀ r ∈ rs, r ≠ Register.sp)
    (hroom : 4 * (words.length + rs.length) ≤ 2 ^ 32)
    (hrun : (rs.forM fun r => do Exec.push (← getRegister r)).run m = .ok () after) :
    Pushed start after (rs.reverse.map start.registers.get ++ words) := by
  induction rs generalizing m words with
  | nil =>
      obtain ⟨-, rfl⟩ := run_pure_eq_ok.1 hrun
      exact h
  | cons r rest ih =>
      obtain ⟨hr, hrest⟩ := List.forall_mem_cons.1 hrs
      rw [List.length_cons] at hroom
      rw [List.forM, run_bind_eq_ok] at hrun
      obtain ⟨_, between, hpush, hrun⟩ := hrun
      rw [run_bind_ok (run_getRegister r), h.get_eq hr] at hpush
      have hroom' : 4 * words.length + 4 ≤ 2 ^ 32 := by omega
      have hpushed := h.push hroom' hpush
      have hrest' : 4 * ((start.registers.get r :: words).length + rest.length) ≤ 2 ^ 32 := by
        rw [List.length_cons]
        omega
      have hall := ih hpushed hrest hrest' hrun
      rw [List.reverse_cons, List.map_append, List.append_assoc]
      exact hall

theorem pushRegisters {rs : List Register} (h : Pushed start m words)
    (hrs : ∀ r ∈ rs, r ≠ Register.sp)
    (hroom : 4 * (words.length + rs.length) ≤ 2 ^ 32)
    (hrun : (Exec.pushRegisters rs).run m = .ok () after) :
    Pushed start after (rs.map start.registers.get ++ words) := by
  have hreverse : ∀ r ∈ rs.reverse, r ≠ Register.sp :=
    fun r hr => hrs r (List.mem_reverse.1 hr)
  have hall := h.pushAll hreverse (by rw [List.length_reverse]; exact hroom) hrun
  rwa [List.reverse_reverse] at hall

end Pushed

/-! ## Popping -/

theorem run_pop {m : Machine} {value : UInt32} {rest : List UInt32}
    (h : m.memory.Holds m.registers.sp (longFields (value :: rest))) :
    pop.run m =
      .ok value (m.withRegisters (m.registers.set Register.sp (m.registers.sp + 4))) := by
  have hslice := h.1
  rw [LittleEndian.length_toBytes] at hslice
  have hread : (readLong (m.registers.get Register.sp)).run m = .ok value m :=
    run_readLong_eq_ok.2 ⟨Memory.readLong_of_slice hslice, rfl⟩
  rw [pop, run_bind_ok (run_getRegister _), run_bind_ok hread, run_bind_ok (run_setRegister _ _)]
  rfl

theorem run_pop_at {m : Machine} {registers : Registers} {address value : UInt32}
    {rest : List UInt32} (h : m.memory.Holds address (longFields (value :: rest))) :
    pop.run (m.withRegisters (registers.set Register.sp address)) =
      .ok value (m.withRegisters (registers.set Register.sp (address + 4))) := by
  have hheld : (m.withRegisters (registers.set Register.sp address)).memory.Holds
      (registers.set Register.sp address).sp (longFields (value :: rest)) := by
    rw [Registers.sp, Registers.get_set_self]
    exact h
  have hrun := run_pop hheld
  rwa [Machine.withRegisters_withRegisters, Machine.registers_withRegisters, Registers.sp,
    Registers.get_set_self, Registers.set_set] at hrun

theorem holds_pop {m : Memory} {sp value : UInt32} {rest : List UInt32}
    (h : m.Holds sp (longFields (value :: rest))) : m.Holds (sp + 4) (longFields rest) := by
  have hrest := h.2
  rw [LittleEndian.length_toBytes] at hrest
  exact hrest

/-- A longword that is popped into a register. -/
theorem run_popInto {m : Machine} {r : Register} {value : UInt32} {rest : List UInt32}
    (h : m.memory.Holds m.registers.sp (longFields (value :: rest))) :
    (pop >>= fun value => setRegister r value).run m = .ok () (m.withRegisters
      ((m.registers.set Register.sp (m.registers.sp + 4)).set r value)) := by
  rw [run_bind_ok (run_pop h), run_setRegister]
  rfl

/-- What lies on the stack for each register ends up in it. -/
theorem run_popRegisters {rs : List Register} {values : Register → UInt32} {rest : List UInt32}
    (hrs : ∀ r ∈ rs, r ≠ Register.sp) {m : Machine}
    (h : m.memory.Holds m.registers.sp (longFields (rs.map values ++ rest))) :
    ∃ registers, (popRegisters rs).run m = .ok () (m.withRegisters registers) ∧
      registers.flags = m.registers.flags ∧
      registers.sp = m.registers.sp + UInt32.ofNat (4 * rs.length) ∧
      ∀ r, r ≠ Register.sp →
        registers.get r = if r ∈ rs then values r else m.registers.get r := by
  induction rs generalizing m with
  | nil => exact ⟨m.registers, rfl, rfl, (UInt32.add_zero _).symm, fun r _ => by simp⟩
  | cons r others ih =>
      obtain ⟨hr, hothers⟩ := List.forall_mem_cons.1 hrs
      have hpop := run_popInto (r := r) h
      have hsp : ((m.registers.set Register.sp (m.registers.sp + 4)).set r (values r)).sp =
          m.registers.sp + 4 := by
        rw [Registers.sp, Registers.get_set_of_ne _ _ hr, Registers.get_set_self]
      obtain ⟨registers, hrun, hflags, hend, hget⟩ := ih (m := m.withRegisters
        ((m.registers.set Register.sp (m.registers.sp + 4)).set r (values r))) hothers (by
          rw [Machine.registers_withRegisters, hsp]
          exact holds_pop h)
      rw [Machine.registers_withRegisters] at hflags hend hget
      refine ⟨registers, ?_, hflags, ?_, ?_⟩
      · change ((pop >>= fun value => setRegister r value) >>= fun _ =>
          popRegisters others).run m = _
        rw [run_bind_ok hpop]
        exact hrun
      · rw [hend, hsp, List.length_cons, Nat.mul_succ, Nat.add_comm, UInt32.ofNat_add,
          UInt32.add_assoc]
        rfl
      · intro s hs
        rw [hget s hs, Registers.get_set, Registers.get_set_of_ne _ _ hs.symm]
        by_cases hmem : s ∈ others
        · rw [if_pos hmem, if_pos (List.mem_cons_of_mem _ hmem)]
        · by_cases heq : r = s
          · rw [if_neg hmem, if_pos heq, if_pos (heq ▸ List.mem_cons_self), heq]
          · have hnot : s ∉ r :: others := by
              rw [List.mem_cons, not_or]
              exact ⟨fun h => heq h.symm, hmem⟩
            rw [if_neg hmem, if_neg heq, if_neg hnot]

end Exec

end Vax
