import Vax.Proofs.Listing.Partition
import Vax.Proofs.Machine.ControlFlow
/-!
# Case tables

The disassembler takes the extent of a case table from the limit that stands
in the instruction, a listing counts the entries down, and the machine goes
through the one that the selector picks.  All three begin at the address
behind the instruction and count in words from there.
-/

namespace Vax

/-! ## What is listed -/

theorem Instruction.caseTable?_eq {i : Instruction} {last : Operand} {limit : Nat}
    (haction : i.descriptor.action = .select) (hlast : i.operands.getLast? = some last)
    (hconstant : last.specifier.constant? = some limit) (hlimit : limit + 1 < 2 ^ 32) :
    i.caseTable? = some ⟨i.nextAddress, limit + 1⟩ := by
  simp only [caseTable?, guard, haction, hlast, hconstant, hlimit, if_true, Option.bind_eq_bind,
    Option.pure_def, Option.bind_some]

namespace Listing

/-- From the state `s` the listing goes on with entry `k` of the table behind
the instruction at `address`. -/
inductive AtEntry (d : Disassembler) (stop address : UInt32) : Nat → State → Prop where
  | first {s s' : State} {lines : List Line} (hposition : s.position = address)
    (hbefore : s.table = none) (hadvance : advance d stop s = (lines, some s'))
    (htable : s'.table.isSome) : AtEntry d stop address 0 s'
  | next {k : Nat} {s s' : State} {lines : List Line} (hentry : AtEntry d stop address k s)
    (hadvance : advance d stop s = (lines, some s')) (htable : s'.table.isSome) :
    AtEntry d stop address (k + 1) s'

section Entry

variable {d : Disassembler} {stop position address : UInt32} {marks : List Mark} {s s' : State}
  {lines : List Line} {line : Line} {table : PendingTable}

theorem entry?_eq_some {m : Memory} {length : UInt32} {text : List UInt8 → String}
    {pending : Option PendingTable}
    (h : entry? m position length text marks pending = some (line, s)) :
    s.position = position + length ∧ s.table = pending := by
  obtain ⟨bytes, -, rfl⟩ := of_entry? h
  exact ⟨rfl, rfl⟩

theorem table_of_rawEntry (h : rawEntry? d stop position marks = some (line, s)) :
    s.table = none :=
  (entry?_eq_some h).2

theorem table_of_maskAt {decoded : Decoded} (h : d.maskAt position = .ok decoded) :
    decoded.table = none := by
  unfold Disassembler.maskAt at h
  cases hmask : d.memory.readWord position with
  | ok mask =>
    rw [hmask] at h
    obtain rfl := Except.ok.inj h
    rfl
  | error e =>
    rw [hmask] at h
    exact absurd h nofun

/-- Only an instruction is followed by a table. -/
theorem of_codeEntry {isMask : Bool}
    (h : codeEntry? d stop position isMask marks = some (line, s)) (htable : s.table.isSome) :
    ∃ decoded, d.decodeAt position = .ok decoded ∧ s.position = position + decoded.length ∧
      s.table = decoded.table.map fun table => ⟨table.base, table.entries⟩ := by
  have hraw : rawEntry? d stop position marks ≠ some (line, s) := by
    intro hraw
    rw [table_of_rawEntry hraw] at htable
    exact absurd htable nofun
  unfold codeEntry? at h
  split at h
  · next decoded hread =>
    simp only at h
    split at h
    · obtain ⟨hposition, hpending⟩ := entry?_eq_some h
      cases isMask with
      | true =>
        rw [hpending, table_of_maskAt hread] at htable
        exact absurd htable nofun
      | false => exact ⟨decoded, hread, hposition, hpending⟩
    · exact absurd h hraw
  · exact absurd h hraw

/-- The table goes on with the entry behind. -/
theorem of_tableEntry (h : tableEntry? d stop position table marks = some (line, s))
    (htable : s.table.isSome) :
    s.position = position + 2 ∧ 1 < table.remaining ∧
      s.table = some ⟨table.base, table.remaining - 1⟩ := by
  have hraw : rawEntry? d stop position marks ≠ some (line, s) := by
    intro hraw
    rw [table_of_rawEntry hraw] at htable
    exact absurd htable nofun
  unfold tableEntry? at h
  split at h
  · next word hread =>
    split at h
    · obtain ⟨hposition, hpending⟩ := entry?_eq_some h
      split at hpending
      · rw [hpending] at htable
        exact absurd htable nofun
      · next hmore => exact ⟨hposition, Nat.not_le.1 hmore, hpending⟩
    · exact absurd h hraw
  · exact absurd h hraw

theorem of_advance (h : advance d stop s = (lines, some s')) :
    ∃ marks line, (∀ table, s.table = some table →
        tableEntry? d stop s.position table marks = some (line, s')) ∧
      (s.table = none → ∃ isMask, codeEntry? d stop s.position isMask marks = some (line, s')) := by
  unfold advance at h
  simp only at h
  generalize (s.marks.dropWhile fun mark => decide (mark.address < s.position)) = ahead at h
  split at h
  · next line s'' hnext =>
    obtain ⟨-, hs⟩ := Prod.mk.inj h
    obtain rfl := Option.some.inj hs
    refine ⟨ahead.dropWhile fun mark => mark.address == s.position, line, ?_, ?_⟩
    · intro table htable
      rw [htable] at hnext
      exact hnext
    · intro hnone
      rw [hnone] at hnext
      exact ⟨_, hnext⟩
  · exact absurd h nofun

/-- A listing comes to the entries one by one, as many as the table has. -/
theorem AtEntry.state_eq {decoded : Decoded} {table : CaseTable} {k : Nat}
    (hdecoded : d.decodeAt address = .ok decoded) (haddress : decoded.address = address)
    (htable : decoded.table = some table) (hbase : table.base = decoded.nextAddress)
    (hentries : 0 < table.entries) (h : AtEntry d stop address k s) :
    k < table.entries ∧ s.position = table.base + UInt32.ofNat (2 * k) ∧
      s.table = some ⟨table.base, table.entries - k⟩ := by
  induction h with
  | first hposition hbefore hadvance hpending =>
    obtain ⟨marks, line, -, hcode⟩ := of_advance hadvance
    obtain ⟨isMask, hentry⟩ := hcode hbefore
    rw [hposition] at hentry
    obtain ⟨other, hother, hnext, hpending⟩ := of_codeEntry hentry hpending
    obtain rfl := Except.ok.inj (hdecoded.symm.trans hother)
    rw [htable] at hpending
    refine ⟨hentries, ?_, hpending⟩
    rw [hnext, hbase, Decoded.nextAddress, haddress]
    exact (UInt32.add_zero _).symm
  | @next k s s' lines hentry hadvance hpending ih =>
    obtain ⟨hk, hposition, hrest⟩ := ih
    obtain ⟨marks, line, hword, -⟩ := of_advance hadvance
    obtain ⟨hnext, hmore, hpending⟩ := of_tableEntry (hword _ hrest) hpending
    simp only at hmore hpending
    refine ⟨by omega, ?_, by rw [hpending, Nat.sub_sub]⟩
    rw [hnext, hposition, UInt32.add_assoc, Nat.mul_succ, UInt32.ofNat_add]
    rfl

/-- The entry at the position is listed as one that leads to `target`, unless
it would hide a mark, and the target is marked. -/
def Leads (d : Disassembler) (stop : UInt32) (s : State) (table : PendingTable)
    (target : UInt32) : Prop :=
  ∀ marks, s.position + 2 ≤ limit stop marks → ∃ bytes rest,
    tableEntry? d stop s.position table marks =
      some (.code s.position bytes
        (".word " ++ Text.marked target.toNat ++ "-" ++ Text.marked table.base.toNat),
        ⟨s.position + 2, insertTarget target marks, rest⟩)

theorem leads_of_readWord {word : UInt16} (h : d.memory.readWord s.position = .ok word) :
    Leads d stop s table (table.base + UInt32.ofInt word.toBitVec.toInt) := by
  intro marks hlimit
  have hin := Memory.offset_add_le_of_readWord h
  have hslice : d.memory.slice s.position (2 : UInt32).toNat = _ :=
    Memory.slice_eq_ok_iff.2 ⟨hin, rfl⟩
  unfold tableEntry?
  rw [h]
  simp only [if_pos hlimit, entry?, hslice]
  exact ⟨_, _, rfl⟩

end Entry

end Listing

/-- Where the entry of a case table leads: its displacement is a signed word
that counts from the first entry. -/
def Memory.caseTarget (m : Memory) (base : UInt32) (k : Nat) : Except OutOfRange UInt32 :=
  (m.readWord (base + UInt32.ofNat (2 * k))).map fun word =>
    base + UInt32.ofInt word.toBitVec.toInt

theorem Memory.caseTarget_eq_ok_iff {m : Memory} {base target : UInt32} {k : Nat} :
    m.caseTarget base k = .ok target ↔
      ∃ word, m.readWord (base + UInt32.ofNat (2 * k)) = .ok word ∧
        target = base + UInt32.ofInt word.toBitVec.toInt := by
  rw [caseTarget]
  cases m.readWord (base + UInt32.ofNat (2 * k)) with
  | ok word => simp only [Except.map, Except.ok.injEq, exists_eq_left', eq_comm]
  | error e => simp only [Except.map, reduceCtorEq, false_and, exists_false]

theorem Memory.exists_caseTarget {m : Memory} {base : UInt32} {entries k : Nat}
    (hin : m.contains base (2 * entries) = true) (hk : k < entries) :
    ∃ target, m.caseTarget base k = .ok target := by
  have hend : m.offset base + 2 * entries ≤ m.size := of_decide_eq_true hin
  have hoffset := m.offset_add base (2 * k)
  have hslice : m.slice (base + UInt32.ofNat (2 * k)) 2 = _ :=
    slice_eq_ok_iff.2 ⟨by omega, rfl⟩
  rw [caseTarget, readWord, readNat, hslice]
  exact ⟨_, rfl⟩

/-! ## Where the machine goes -/

namespace Exec

variable {m after : Machine} {i : Instruction}

/-- The limit is read as it was decoded. -/
theorem toNat_limit_eq {located : Machine} {a b c : Location} {last : Operand} {limit : Nat}
    {bound : BitVec i.width.bits} (hencoded : i.IsEncodedIn m.memory)
    (haction : i.descriptor.action = .select) (hlast : i.operands.getLast? = some last)
    (hconstant : last.specifier.constant? = some limit)
    (hall : (locateAll i).run m = .ok [a, b, c] located)
    (hbound : (read i.width c).run located = .ok bound located) : bound.toNat = limit := by
  have hmemory := (differsIn_locateAll hall).memory_eq
  have hplaces := liesAt_of_locateAll hall
  have hfits := hencoded.fits (by rw [haction]; nofun)
  rw [Descriptor.accesses, haction] at hfits
  have hlength : i.operands.length = 3 := hfits.length_eq
  obtain ⟨x, y, z, hoperands⟩ := List.length_eq_three.1 hlength
  rw [hoperands] at hlast hplaces
  obtain rfl := Option.some.inj hlast
  have hlies : z.LiesAt m.memory c := by
    cases hplaces with
    | cons _ hrest => cases hrest with
      | cons _ hrest => cases hrest with
        | cons hlies _ => exact hlies
  have hthird : i.operands[2]? = some z := by rw [hoperands]; rfl
  have hkind : (Access.read i.width).Fits z.kind := hfits.get (by rfl) hthird
  obtain ⟨hlt, hread⟩ := run_read_constant (hencoded.operands z (by rw [hoperands]; simp)) hkind
    hconstant hlies hmemory
  obtain ⟨rfl, -⟩ := EStateM.Result.ok.inj (hbound.symm.trans hread)
  rw [BitVec.toNat_ofNat, Nat.mod_eq_of_lt hlt]

/-- A case instruction goes through the entry that the selector picks, or past
as many entries as its limit says. -/
theorem run_select_eq (hsteps : ¬ i.Steps Register.pc) (h : (select i).run m = .ok () after) :
    ∃ a b c located selector base limit, (locateAll i).run m = .ok [a, b, c] located ∧
      (read i.width a).run located = .ok selector located ∧
      (read i.width b).run located = .ok base located ∧
      (read i.width c).run located = .ok limit located ∧
      ((selector - base).toNat ≤ limit.toNat →
        m.memory.caseTarget m.registers.pc (selector - base).toNat = .ok after.registers.pc) ∧
      (limit.toNat < (selector - base).toNat →
        after.registers.pc = m.registers.pc + UInt32.ofNat (2 * (limit.toNat + 1))) := by
  rw [select, run_bind_eq_ok] at h
  obtain ⟨⟨a, b, c⟩, located, hlocate, h⟩ := h
  simp only at h
  have hall := run_locate3_eq_ok hlocate
  have hdiffers := differsIn_locateAll hall
  have hpc : located.registers.pc = m.registers.pc := hdiffers.get_eq Register.pc hsteps
  rw [run_bind_eq_ok] at h
  obtain ⟨selector, between, hselector, h⟩ := h
  obtain rfl := run_read_eq hselector
  rw [run_bind_eq_ok] at h
  obtain ⟨base, between', hbase, h⟩ := h
  obtain rfl := run_read_eq hbase
  rw [run_bind_eq_ok] at h
  obtain ⟨limit, between'', hlimit, h⟩ := h
  obtain rfl := run_read_eq hlimit
  simp only [setComparison] at h
  rw [run_bind_ok (run_setFlags _), run_bind_ok (run_getRegister _)] at h
  refine ⟨a, b, c, _, selector, base, limit, hall, hselector, hbase, hlimit, ?_, ?_⟩
  · intro hle
    have hule : (selector - base).ule limit = true := decide_eq_true hle
    rw [if_pos hule, run_bind_eq_ok] at h
    obtain ⟨word, between, hread, h⟩ := h
    obtain ⟨hword, rfl⟩ := run_readWord_eq_ok.1 hread
    rw [run_setPc_eq h, Memory.caseTarget_eq_ok_iff, ← hpc, ← hdiffers.memory_eq]
    exact ⟨word, hword, rfl⟩
  · intro hlt
    rw [if_neg (by simpa [BitVec.ule] using hlt)] at h
    rw [run_setPc_eq h, ← hpc]
    rfl

end Exec

open Exec

/-- A case instruction whose limit stands in it goes where the listing says.
The table that is decoded behind the instruction has an entry for every
selector in range, the listing shows these entries one by one, and the machine
goes to the target that is shown, or behind the last entry. -/
theorem case_follows_listed_table {d : Disassembler} {address : UInt32} {i : Instruction}
    {last : Operand} {limit : Nat} (hfetch : d.memory.instructionAt address = .ok i)
    (haction : i.descriptor.action = .select) (hlast : i.operands.getLast? = some last)
    (hconstant : last.specifier.constant? = some limit) (hlimit : limit < 2 ^ 31 - 1)
    (hsteps : ¬ i.Steps Register.pc) :
    ∃ decoded, d.decodeAt address = .ok decoded ∧
      let table : CaseTable := ⟨decoded.nextAddress, limit + 1⟩
      decoded.table = some table ∧
      (d.memory.contains table.base (2 * table.entries) = true →
        ∀ k, k < table.entries → ∃ target, d.memory.caseTarget table.base k = .ok target) ∧
      (∀ stop k s, Listing.AtEntry d stop address k s →
        let pending : Listing.PendingTable := ⟨table.base, table.entries - k⟩
        k < table.entries ∧ s.position = table.base + UInt32.ofNat (2 * k) ∧
          s.table = some pending ∧
          ∀ target, d.memory.caseTarget table.base k = .ok target →
            Listing.Leads d stop s pending target) ∧
      ∀ m : Machine, m.status = .running → m.memory = d.memory → m.registers.pc = address →
        m.step.status = .running →
        ∃ a b c located selector base, (locateAll i).run (m.fetched i) = .ok [a, b, c] located ∧
          (read i.width a).run located = .ok selector located ∧
          (read i.width b).run located = .ok base located ∧
          let k := (selector - base).toNat
          (k < table.entries →
            d.memory.caseTarget table.base k = .ok m.step.registers.pc) ∧
          (table.entries ≤ k →
            m.step.registers.pc = table.base + UInt32.ofNat (2 * table.entries)) := by
  have hencoded := Memory.isEncodedIn_of_instructionAt hfetch
  obtain ⟨stop, hdecodes⟩ := Memory.decodes_of_instructionAt hfetch
  have hdecoded := Decoding.decodeAt_of_decodes (d := d) hdecodes
  obtain ⟨-, hnext, -⟩ := Decoding.decoded_of_instructionAt d address hfetch hdecoded
  have htable := Instruction.caseTable?_eq haction hlast hconstant (by omega)
  rw [hnext] at htable
  refine ⟨_, hdecoded, htable, fun hin k => Memory.exists_caseTarget hin, ?_, ?_⟩
  · intro stop k s hentry
    obtain ⟨hk, hposition, hpending⟩ :=
      hentry.state_eq hdecoded rfl htable rfl (Nat.succ_pos limit)
    refine ⟨hk, hposition, hpending, fun target htarget => ?_⟩
    obtain ⟨word, hword, rfl⟩ := Memory.caseTarget_eq_ok_iff.1 htarget
    exact Listing.leads_of_readWord (by rw [hposition]; exact hword)
  · intro m hrunning hmemory hpc hstep
    subst hpc
    rw [← hmemory] at hfetch hencoded ⊢
    obtain ⟨hrun, -⟩ := Machine.run_of_step_running hrunning hfetch hstep
    rw [execute, haction] at hrun
    obtain ⟨a, b, c, located, selector, base, bound, hall, hselector, hbase, hbound, hinside,
      hpast⟩ := run_select_eq hsteps (run_of_goesOn hrun)
    have hbound' := toNat_limit_eq (m := m.fetched i) hencoded haction hlast hconstant hall hbound
    have hfetched : (m.fetched i).registers.pc = i.nextAddress := Registers.get_set_self _ _ _
    rw [hfetched, hbound', hnext] at hinside hpast
    exact ⟨a, b, c, located, selector, base, hall, hselector, hbase,
      fun hk => hinside (Nat.le_of_lt_succ hk), fun hk => hpast hk⟩

deriving instance DecidableEq for Listing.State

/-- The selector in `r1` picks the second of two entries. -/
theorem case_follows_listed_table_second :
    let m : Machine :=
      { registers := (Registers.zeroed.set 1 3).set Register.pc 4
        memory := ⟨0, 64, [0, 0, 0, 0, 0x8f, 0x51, 2, 1, 4, 0, 8, 0].toByteArray⟩
        symbols := .empty, entry := 0, status := .running, frames := #[],
        output := .unlimited, log := .empty none, current := 0 }
    let i : Instruction :=
      { address := 4, length := 4, descriptor := ⟨0x8f, "caseb", [.byte, .byte, .byte], .select⟩
        operands := [⟨.byte, .plain (.register 1)⟩, ⟨.byte, .plain (.literal 2)⟩,
          ⟨.byte, .plain (.literal 1)⟩] }
    m.memory.instructionAt 4 = .ok i ∧ ¬ i.Steps Register.pc ∧ m.step.status = .running ∧
      m.memory.caseTarget 8 1 = .ok m.step.registers.pc ∧ m.step.registers.pc = 16 ∧
      ∃ s, Listing.AtEntry m.disassembler 20 4 1 s ∧ s.position = 10 ∧
        Listing.Leads m.disassembler 20 s ⟨8, 1⟩ 16 := by
  intro m i
  have hfetch : m.memory.instructionAt 4 = .ok i :=
    Memory.instructionAt_of_toOption (by decide +kernel)
  have hsteps : ¬ i.Steps Register.pc := by
    rintro ⟨operand, hmem, hstepped⟩
    revert operand
    decide
  have hstep : m.step.status = .running := by decide +kernel
  have hpc : m.step.registers.pc = 16 := by decide +kernel
  have htarget : m.memory.caseTarget 8 1 = .ok 16 := by decide +kernel
  have hfetched : m.disassembler.memory.instructionAt 4 = .ok i := hfetch
  have hlimit : 1 < 2 ^ 31 - 1 := by decide
  obtain ⟨decoded, hdecoded, -, -, hlisted, -⟩ :=
    case_follows_listed_table hfetched rfl rfl rfl hlimit hsteps
  have hnext : decoded.nextAddress = 8 :=
    (Decoding.decoded_of_instructionAt m.disassembler 4 hfetch hdecoded).2.1.symm
  -- The listing shows the instruction, then the first entry, and comes to the second.
  let start : Listing.State := ⟨4, [], none⟩
  let first : Listing.State := ⟨8, [], some ⟨8, 2⟩⟩
  let second : Listing.State := ⟨10, [⟨12, .target⟩], some ⟨8, 1⟩⟩
  have hfirst : (Listing.advance m.disassembler 20 start).2 = some first := by decide +kernel
  have hsecond : (Listing.advance m.disassembler 20 first).2 = some second := by decide +kernel
  have hentry : Listing.AtEntry m.disassembler 20 4 1 second :=
    .next (.first (s := start) rfl rfl (Prod.ext rfl hfirst) rfl) (Prod.ext rfl hsecond) rfl
  obtain ⟨-, -, -, hleads⟩ := hlisted 20 1 second hentry
  rw [hnext] at hleads
  refine ⟨hfetch, hsteps, hstep, by rw [hpc, htarget], hpc, second, hentry, rfl, ?_⟩
  exact hleads 16 htarget

end Vax
