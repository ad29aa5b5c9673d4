import Vax.Proofs.Listing.Partition
/-!
# Listings stop at every mark

The marks of a listing stay in order of address, an entry ends at the next of
them at the latest, and a mark is dropped only when the position has come to
it.  So every symbol in the range gets its heading, once and in order, and an
entry begins at each address that is marked.
-/

namespace Vax

/-! ## Order -/

namespace Listing

/-- The marks ascend by address. -/
def Ordered (marks : List Mark) : Prop :=
  marks.Pairwise fun mark other => mark.address ≤ other.address

section Split

variable {α : Type} {r : α → α → Prop} {p : α → Bool} {xs : List α}

/-- What holds of an element and of all before it holds of a front part. -/
theorem takeWhile_eq_filter (hxs : xs.Pairwise r) (hp : ∀ {a b}, r a b → p b = true → p a = true) :
    xs.takeWhile p = xs.filter p := by
  induction hxs with
  | nil => rfl
  | @cons a rest hfirst _ ih =>
    by_cases ha : p a = true
    · rw [List.takeWhile_cons_of_pos ha, List.filter_cons_of_pos ha, ih]
    · have hrest : rest.filter p = [] := by
        rw [List.filter_eq_nil_iff]
        intro b hb hpb
        exact ha (hp (hfirst b hb) hpb)
      rw [List.takeWhile_cons_of_neg ha, List.filter_cons_of_neg ha, hrest]

theorem dropWhile_eq_filter (hxs : xs.Pairwise r) (hp : ∀ {a b}, r a b → p b = true → p a = true) :
    xs.dropWhile p = xs.filter fun a => !p a := by
  induction hxs with
  | nil => rfl
  | @cons a rest hfirst _ ih =>
    by_cases ha : p a = true
    · rw [List.dropWhile_cons_of_pos ha, List.filter_cons_of_neg (by simp [ha]), ih]
    · have hrest : (rest.filter fun a => !p a) = rest := by
        rw [List.filter_eq_self]
        intro b hb
        rw [Bool.not_eq_true']
        exact Bool.eq_false_iff.2 fun hpb => ha (hp (hfirst b hb) hpb)
      rw [List.dropWhile_cons_of_neg ha, List.filter_cons_of_pos (by simp [ha]), hrest]

end Split

theorem mem_insertTarget {target : UInt32} {marks : List Mark} {mark : Mark} :
    mark ∈ insertTarget target marks ↔ mark = ⟨target, .target⟩ ∨ mark ∈ marks := by
  induction marks with
  | nil => simp [insertTarget]
  | cons other rest ih =>
    rw [insertTarget]
    split
    · rw [List.mem_cons, ih, List.mem_cons, or_left_comm]
    · rw [List.mem_cons]

theorem Ordered.insertTarget {marks : List Mark} (h : Ordered marks) (target : UInt32) :
    Ordered (insertTarget target marks) := by
  induction marks with
  | nil => exact List.pairwise_singleton _ _
  | cons other rest ih =>
    obtain ⟨hother, hrest⟩ := List.pairwise_cons.1 h
    rw [Listing.insertTarget]
    split
    · next hle =>
      refine List.pairwise_cons.2 ⟨fun mark hmark => ?_, ih hrest⟩
      rcases mem_insertTarget.1 hmark with rfl | hmark
      · exact hle
      · exact hother mark hmark
    · next hlt =>
      have htarget : target ≤ other.address := UInt32.le_of_lt (UInt32.not_le.1 hlt)
      refine List.pairwise_cons.2 ⟨fun mark hmark => ?_, h⟩
      rcases List.mem_cons.1 hmark with rfl | hmark
      · exact htarget
      · exact UInt32.le_trans htarget (hother mark hmark)

/-- A target has no heading. -/
theorem headings_insertTarget (p : Mark → Bool) (target : UInt32) (marks : List Mark) :
    ((insertTarget target marks).filter p).filterMap Mark.heading? =
      (marks.filter p).filterMap Mark.heading? := by
  have hcons : ∀ rest : List Mark, ((⟨target, .target⟩ :: rest).filter p).filterMap Mark.heading? =
      (rest.filter p).filterMap Mark.heading? := by
    intro rest
    rw [List.filter_cons]
    split <;> rfl
  induction marks with
  | nil => exact hcons []
  | cons other rest ih =>
    rw [insertTarget]
    split
    · rw [List.filter_cons, List.filter_cons]
      split
      · rw [List.filterMap_cons, List.filterMap_cons, ih]
      · exact ih
    · exact hcons _

/-! ## Where an entry ends -/

/-- The marks at the position. -/
def State.here (s : State) : List Mark :=
  s.marks.filter fun mark => mark.address == s.position

/-- The marks behind the position. -/
def State.ahead (s : State) : List Mark :=
  s.marks.filter fun mark => decide (s.position < mark.address)

/-- Marks with the targets of an entry among them. -/
def withTargets (marks : List Mark) (targets : List UInt32) : List Mark :=
  targets.foldl (fun marks target => insertTarget target marks) marks

/-- The entry at the position, with the state behind it. -/
def nextEntry? (d : Disassembler) (stop : UInt32) (s : State) : Option (Line × State) :=
  match s.table with
  | some table => tableEntry? d stop s.position table s.ahead
  | none =>
    codeEntry? d stop s.position (d.entry == some s.position || s.here.any Mark.isProcedure) s.ahead

section Marks

variable {marks : List Mark} {s : State} {stop : UInt32}

theorem mem_here {mark : Mark} : mark ∈ s.here ↔ mark ∈ s.marks ∧ mark.address = s.position := by
  rw [State.here, List.mem_filter, beq_iff_eq]

theorem mem_ahead {mark : Mark} : mark ∈ s.ahead ↔ mark ∈ s.marks ∧ s.position < mark.address := by
  rw [State.ahead, List.mem_filter, decide_eq_true_eq]

theorem Ordered.ahead (h : Ordered s.marks) : Ordered s.ahead :=
  h.filter _

theorem Ordered.withTargets (h : Ordered marks) (targets : List UInt32) :
    Ordered (withTargets marks targets) := by
  induction targets generalizing marks with
  | nil => exact h
  | cons target rest ih => exact ih (h.insertTarget target)

theorem mem_withTargets {targets : List UInt32} {mark : Mark} :
    mark ∈ withTargets marks targets ↔
      (∃ target ∈ targets, mark = ⟨target, .target⟩) ∨ mark ∈ marks := by
  induction targets generalizing marks with
  | nil => simp [withTargets]
  | cons target rest ih =>
    have hstep :
        withTargets marks (target :: rest) = withTargets (insertTarget target marks) rest := rfl
    rw [hstep, ih, mem_insertTarget, List.exists_mem_cons_iff, or_left_comm, ← or_assoc]

theorem headings_withTargets (p : Mark → Bool) (targets : List UInt32) :
    ((withTargets marks targets).filter p).filterMap Mark.heading? =
      (marks.filter p).filterMap Mark.heading? := by
  induction targets generalizing marks with
  | nil => rfl
  | cons target rest ih => exact ih.trans (headings_insertTarget p target marks)

theorem limit_le_address (h : Ordered marks) {mark : Mark} (hmark : mark ∈ marks) :
    limit stop marks ≤ mark.address := by
  cases marks with
  | nil => exact absurd hmark List.not_mem_nil
  | cons first rest =>
    have hfirst : first.address ≤ mark.address := by
      rcases List.mem_cons.1 hmark with rfl | hrest
      · exact UInt32.le_refl _
      · exact (List.pairwise_cons.1 h).1 mark hrest
    rw [UInt32.le_iff_toNat_le] at hfirst ⊢
    rw [limit, toNat_min]
    omega

theorem lt_limit_ahead (hlt : s.position < stop) : s.position < limit stop s.ahead := by
  have hlt' := UInt32.lt_iff_toNat_lt.1 hlt
  have hahead : ∀ mark ∈ s.ahead, s.position < mark.address := fun mark hmark =>
    (mem_ahead.1 hmark).2
  revert hahead
  cases s.ahead with
  | nil => exact fun _ => hlt
  | cons first rest =>
    intro hahead
    have hfirst := UInt32.lt_iff_toNat_lt.1 (hahead first List.mem_cons_self)
    rw [UInt32.lt_iff_toNat_lt, limit, toNat_min]
    omega

/-- The marks that were passed stand in front. -/
theorem dropWhile_passed (h : Ordered s.marks) :
    (s.marks.dropWhile fun mark => decide (mark.address < s.position)) =
      s.marks.filter fun mark => decide (s.position ≤ mark.address) := by
  rw [dropWhile_eq_filter h]
  · apply List.filter_congr
    intro mark _
    rw [← decide_not, decide_eq_decide, UInt32.not_lt]
  · intro mark other hle hlt
    rw [decide_eq_true_eq] at hlt ⊢
    exact UInt32.lt_of_le_of_lt hle hlt

theorem pairwise_remaining (h : Ordered s.marks) :
    (s.marks.filter fun mark => decide (s.position ≤ mark.address)).Pairwise
      fun mark other => s.position ≤ mark.address ∧ mark.address ≤ other.address :=
  (h.filter _).imp_of_mem fun hmark _ hle =>
    ⟨of_decide_eq_true (List.mem_filter.1 hmark).2, hle⟩

/-- Between the position and a mark at it, every mark is at it. -/
theorem at_position_of_le {position : UInt32} {mark other : Mark}
    (h : position ≤ mark.address ∧ mark.address ≤ other.address)
    (hother : (other.address == position) = true) : (mark.address == position) = true := by
  rw [beq_iff_eq] at hother ⊢
  exact UInt32.le_antisymm (hother ▸ h.2) h.1

theorem takeWhile_remaining (h : Ordered s.marks) :
    (s.marks.filter fun mark => decide (s.position ≤ mark.address)).takeWhile
      (fun mark => mark.address == s.position) = s.here := by
  rw [takeWhile_eq_filter (pairwise_remaining h) at_position_of_le, List.filter_filter]
  apply List.filter_congr
  intro mark _
  by_cases heq : mark.address = s.position <;> simp [heq]

theorem dropWhile_remaining (h : Ordered s.marks) :
    (s.marks.filter fun mark => decide (s.position ≤ mark.address)).dropWhile
      (fun mark => mark.address == s.position) = s.ahead := by
  rw [dropWhile_eq_filter (pairwise_remaining h) at_position_of_le, List.filter_filter]
  apply List.filter_congr
  intro mark _
  rw [Bool.eq_iff_iff]
  simp only [Bool.and_eq_true, Bool.not_eq_true', beq_eq_false_iff_ne, decide_eq_true_eq,
    UInt32.lt_iff_toNat_lt, UInt32.le_iff_toNat_le, ne_eq, ← UInt32.toNat_inj]
  omega

theorem here_append_ahead (h : Ordered s.marks) :
    s.here ++ s.ahead = s.marks.filter fun mark => decide (s.position ≤ mark.address) := by
  rw [← takeWhile_remaining h, ← dropWhile_remaining h, List.takeWhile_append_dropWhile]

/-- Marks behind the position are dropped, those at it are shown, and the entry
is made with the rest. -/
theorem advance_of_nextEntry {d : Disassembler} {line : Line} {next : State} (h : Ordered s.marks)
    (hentry : nextEntry? d stop s = some (line, next)) :
    advance d stop s = (s.here.filterMap Mark.heading? ++ [line], some next) := by
  unfold nextEntry? at hentry
  unfold advance
  simp only [dropWhile_passed h, takeWhile_remaining h, dropWhile_remaining h]
  cases htable : s.table with
  | some table =>
    simp only [htable] at hentry
    simp only [hentry]
  | none =>
    simp only [htable] at hentry
    simp only [hentry]

end Marks

/-! ## Entries -/

/-- How the entry at the position came about, and the state behind it. -/
inductive Listed (d : Disassembler) (stop : UInt32) (s : State) : Line → State → Prop where
  | raw {bytes : List UInt8} {next : UInt32} (hnext : next ≤ limit stop s.ahead) :
      Listed d stop s (.code s.position bytes (byteDirective bytes)) ⟨next, s.ahead, none⟩
  | mask {bytes : List UInt8} {word : UInt16} (hnext : s.position + 2 ≤ limit stop s.ahead) :
      Listed d stop s (.code s.position bytes (".word " ++ Text.unsigned word.toNat))
        ⟨s.position + 2, s.ahead, none⟩
  | instruction {bytes : List UInt8} {decoded : Decoded} {table : Option PendingTable}
      (hdecoded : d.decodeAt s.position = .ok decoded)
      (hnext : decoded.nextAddress ≤ limit stop s.ahead) :
      Listed d stop s (.code s.position bytes decoded.text)
        ⟨decoded.nextAddress,
          withTargets s.ahead (decoded.targets.filter fun target => decoded.nextAddress ≤ target),
          table⟩
  | word {bytes : List UInt8} {target base : UInt32} {table : Option PendingTable}
      (hnext : s.position + 2 ≤ limit stop s.ahead) :
      Listed d stop s
        (.code s.position bytes
          (".word " ++ Text.marked target.toNat ++ "-" ++ Text.marked base.toNat))
        ⟨s.position + 2, withTargets s.ahead [target], table⟩

section Entry

variable {d : Disassembler} {stop : UInt32} {s next : State} {line : Line}

theorem listed_rawEntry (hlt : s.position < stop)
    (h : rawEntry? d stop s.position s.ahead = some (line, next)) : Listed d stop s line next := by
  obtain ⟨bytes, rfl, rfl⟩ := of_entry? h
  apply Listed.raw
  have hlt' := UInt32.lt_iff_toNat_lt.1 hlt
  have hpos := UInt32.lt_iff_toNat_lt.1 (lt_limit_ahead hlt)
  have hlimit := limit_le stop s.ahead
  have htop := stop.toNat_lt
  have hrest : (stop - s.position).toNat = stop.toNat - s.position.toNat :=
    UInt32.toNat_sub_of_le _ _ (UInt32.le_of_lt hlt)
  have hroom : (limit stop s.ahead - s.position).toNat =
      (limit stop s.ahead).toNat - s.position.toNat :=
    UInt32.toNat_sub_of_le _ _ (UInt32.le_of_lt (lt_limit_ahead hlt))
  have hone : (1 : UInt32).toNat = 1 := rfl
  rw [UInt32.le_iff_toNat_le, UInt32.toNat_add, toNat_min, toNat_max, hrest, hroom, hone]
  omega

theorem listed_codeEntry (hspans : Spans d.memory s.position stop) (hlt : s.position < stop)
    {isMask : Bool} (h : codeEntry? d stop s.position isMask s.ahead = some (line, next)) :
    Listed d stop s line next := by
  unfold codeEntry? at h
  cases isMask with
  | true =>
    rw [if_pos rfl, Disassembler.maskAt] at h
    cases hmask : d.memory.readWord s.position with
    | error e =>
      rw [hmask] at h
      exact listed_rawEntry hlt h
    | ok mask =>
      rw [hmask] at h
      change (if s.position + 2 ≤ limit stop s.ahead then _ else _) = _ at h
      split at h
      · next hnext =>
        obtain ⟨bytes, rfl, rfl⟩ := of_entry? h
        exact .mask hnext
      · exact listed_rawEntry hlt h
  | false =>
    rw [if_neg Bool.false_ne_true] at h
    cases hdecoded : d.decodeAt s.position with
    | error e =>
      rw [hdecoded] at h
      exact listed_rawEntry hlt h
    | ok decoded =>
      rw [hdecoded] at h
      simp only at h
      split at h
      · next hnext =>
        have hsize : d.memory.size < 2 ^ 32 :=
          Nat.lt_of_le_of_lt (Nat.le_add_left _ _) hspans.top_lt
        have haddress := (Disassembler.lies_of_decodeAt hsize hdecoded).address_eq
        have hbehind : s.position + decoded.length = decoded.nextAddress := by
          rw [Decoded.nextAddress, haddress]
        obtain ⟨bytes, rfl, rfl⟩ := of_entry? h
        rw [hbehind]
        exact .instruction hdecoded hnext
      · exact listed_rawEntry hlt h

theorem listed_tableEntry (hlt : s.position < stop) {table : PendingTable}
    (h : tableEntry? d stop s.position table s.ahead = some (line, next)) :
    Listed d stop s line next := by
  unfold tableEntry? at h
  cases hword : d.memory.readWord s.position with
  | error e =>
    rw [hword] at h
    exact listed_rawEntry hlt h
  | ok word =>
    rw [hword] at h
    simp only at h
    split at h
    · next hnext =>
      obtain ⟨bytes, rfl, rfl⟩ := of_entry? h
      exact .word hnext
    · exact listed_rawEntry hlt h

theorem listed_nextEntry (hspans : Spans d.memory s.position stop) (hlt : s.position < stop)
    (h : nextEntry? d stop s = some (line, next)) : Listed d stop s line next := by
  unfold nextEntry? at h
  split at h
  · exact listed_tableEntry hlt h
  · exact listed_codeEntry hspans hlt h

/-- No entry runs past a mark, and no mark is lost before its address. -/
structure Follows (stop : UInt32) (s next : State) : Prop where
  le_limit : next.position ≤ limit stop s.ahead
  marks_eq : ∃ targets, next.marks = withTargets s.ahead targets

theorem Listed.follows (h : Listed d stop s line next) : Follows stop s next := by
  cases h with
  | raw hnext => exact ⟨hnext, [], rfl⟩
  | mask hnext => exact ⟨hnext, [], rfl⟩
  | instruction hdecoded hnext => exact ⟨hnext, _, rfl⟩
  | word hnext => exact ⟨hnext, _, rfl⟩

theorem Follows.ordered (h : Follows stop s next) (hordered : Ordered s.marks) :
    Ordered next.marks := by
  obtain ⟨targets, htargets⟩ := h.marks_eq
  rw [htargets]
  exact hordered.ahead.withTargets targets

theorem Follows.mem_marks (h : Follows stop s next) {mark : Mark} (hmark : mark ∈ s.ahead) :
    mark ∈ next.marks := by
  obtain ⟨targets, htargets⟩ := h.marks_eq
  rw [htargets]
  exact mem_withTargets.2 (.inr hmark)

theorem Follows.le_address (h : Follows stop s next) (hordered : Ordered s.marks) {mark : Mark}
    (hmark : mark ∈ s.ahead) : next.position ≤ mark.address :=
  UInt32.le_trans h.le_limit (limit_le_address hordered.ahead hmark)

end Entry

/-! ## Whole listings -/

/-- The lines that a state leads to: at each entry the headings of the marks
there, then the entry, and so on up to `stop`. -/
inductive Runs (d : Disassembler) (stop : UInt32) : State → List Line → Prop where
  | done {s : State} (hstop : s.position = stop) : Runs d stop s []
  | entry {s next : State} {line : Line} {bytes : List UInt8} {text : String} {rest : List Line}
      (hshows : Shows d.memory s.position stop (line, next) bytes text)
      (hlisted : Listed d stop s line next) (hrest : Runs d stop next rest) :
      Runs d stop s (s.here.filterMap Mark.heading? ++ line :: rest)

section Run

variable {d : Disassembler} {stop : UInt32} {s : State} {lines : List Line}

theorem exists_nextEntry (hspans : Spans d.memory s.position stop) (hlt : s.position < stop) :
    ∃ entry bytes text, nextEntry? d stop s = some entry ∧
      Shows d.memory s.position stop entry bytes text := by
  unfold nextEntry?
  cases s.table with
  | some table => exact shows_tableEntry hspans hlt _ table
  | none => exact shows_codeEntry hspans hlt _ _

theorem runs_linesFrom {entries : Nat} (hspans : Spans d.memory s.position stop)
    (hordered : Ordered s.marks) (hentries : stop.toNat - s.position.toNat < entries) :
    Runs d stop s (linesFrom d stop entries s) := by
  induction entries generalizing s with
  | zero => exact absurd hentries (Nat.not_lt_zero _)
  | succ entries ih =>
    rw [linesFrom]
    by_cases hdone : stop ≤ s.position
    · rw [if_pos hdone]
      exact .done (UInt32.le_antisymm (UInt32.le_iff_toNat_le.2 hspans.le_stop) hdone)
    · have hlt := UInt32.not_le.1 hdone
      obtain ⟨⟨line, next⟩, bytes, text, hentry, hshows⟩ := exists_nextEntry hspans hlt
      have hlisted := listed_nextEntry hspans hlt hentry
      have hpos := List.length_pos_of_ne_nil hshows.bytes_ne_nil
      have hnext := hshows.toNat_position
      have hle := hshows.le_stop
      rw [if_neg hdone, advance_of_nextEntry hordered hentry]
      simp only [List.append_assoc, List.singleton_append]
      simp only at hnext
      exact .entry hshows hlisted
        (ih (hshows.spans hspans) (hlisted.follows.ordered hordered) (by omega))

/-- Every entry lies between the position and the end. -/
theorem Runs.bounds (h : Runs d stop s lines) {address : UInt32} {bytes : List UInt8}
    {text : String} (hmem : .code address bytes text ∈ lines) :
    s.position ≤ address ∧ address.toNat + bytes.length ≤ stop.toNat := by
  induction h with
  | done => exact absurd hmem List.not_mem_nil
  | @entry s next line bytes' text' rest hshows hlisted hrest ih =>
    have hnext := hshows.toNat_position
    have hline : line = .code s.position bytes' text' := hshows.line_eq
    simp only at hnext
    rcases List.mem_append.1 hmem with hheading | hmem
    · obtain ⟨mark, -, hmark⟩ := List.mem_filterMap.1 hheading
      cases hkind : mark.kind <;> simp [Mark.heading?, hkind] at hmark
    · rcases List.mem_cons.1 hmem with hfirst | hmem
      · rw [hline, Line.code.injEq] at hfirst
        obtain ⟨rfl, rfl, rfl⟩ := hfirst
        exact ⟨UInt32.le_refl _, hshows.le_stop⟩
      · obtain ⟨hlow, hhigh⟩ := ih hmem
        rw [UInt32.le_iff_toNat_le] at hlow ⊢
        exact ⟨by omega, hhigh⟩

/-- An entry begins at every mark that is still to come, and none runs over it. -/
theorem Runs.resynchronize (h : Runs d stop s lines) (hordered : Ordered s.marks) {mark : Mark}
    (hmark : mark ∈ s.marks) (hlow : s.position ≤ mark.address) (hhigh : mark.address < stop) :
    (∃ bytes text, .code mark.address bytes text ∈ lines) ∧
      ∀ address bytes text, .code address bytes text ∈ lines →
        ¬ (address < mark.address ∧ mark.address.toNat < address.toNat + bytes.length) := by
  induction h with
  | done hstop =>
    rw [hstop] at hlow
    exact absurd (UInt32.lt_of_le_of_lt hlow hhigh) (UInt32.lt_irrefl _)
  | @entry s next line bytes text rest hshows hlisted hrest ih =>
    have hnext := hshows.toNat_position
    have hline : line = .code s.position bytes text := hshows.line_eq
    simp only at hnext
    by_cases hhere : s.position = mark.address
    · -- The entry here begins at the mark, and what follows lies behind it.
      refine ⟨⟨bytes, text, ?_⟩, fun address bytes' text' hmem => ?_⟩
      · rw [← hhere, hline]
        exact List.mem_append_right _ List.mem_cons_self
      · rintro ⟨hbefore, -⟩
        have hbounds := (Runs.entry hshows hlisted hrest).bounds hmem
        rw [hhere] at hbounds
        exact absurd (UInt32.lt_of_le_of_lt hbounds.1 hbefore) (UInt32.lt_irrefl _)
    · -- The entry here ends at the mark at the latest, and the mark stays.
      have hahead : mark ∈ s.ahead := mem_ahead.2 ⟨hmark, UInt32.lt_of_le_of_ne hlow hhere⟩
      have hfollows := hlisted.follows
      have hle := hfollows.le_address hordered hahead
      obtain ⟨⟨bytes', text', hmem⟩, hnone⟩ :=
        ih (hfollows.ordered hordered) (hfollows.mem_marks hahead) hle
      refine ⟨⟨bytes', text', List.mem_append_right _ (List.mem_cons_of_mem _ hmem)⟩, ?_⟩
      intro address bytes'' text'' hmem
      rcases List.mem_append.1 hmem with hheading | hmem
      · obtain ⟨other, -, hother⟩ := List.mem_filterMap.1 hheading
        cases hkind : other.kind <;> simp [Mark.heading?, hkind] at hother
      · rcases List.mem_cons.1 hmem with hfirst | hmem
        · rw [hline, Line.code.injEq] at hfirst
          obtain ⟨rfl, rfl, rfl⟩ := hfirst
          rw [UInt32.le_iff_toNat_le] at hle
          rintro ⟨-, hinside⟩
          omega
        · exact hnone address bytes'' text'' hmem

end Run

end Listing

/-! ## Headings -/

namespace Line

def address : Line → UInt32
  | unit address _ => address
  | label address _ => address
  | code address _ _ => address

/-- Whether the line names a symbol. -/
def isHeading : Line → Bool
  | unit _ _ => true
  | label _ _ => true
  | code _ _ _ => false

end Line

/-- The line that a listing shows for a symbol. -/
def Symbol.heading (s : Symbol) : Line :=
  if s.isUnit then .unit s.address s.name else .label s.address s.name

namespace Listing

theorem Mark.heading?_ofSymbol (s : Symbol) : (Mark.ofSymbol s).heading? = some s.heading := by
  rw [ofSymbol, heading?, Symbol.heading]
  cases s.isUnit <;> rfl

theorem Mark.of_heading? {mark : Mark} {line : Line} (h : mark.heading? = some line) :
    line.isHeading = true ∧ line.address = mark.address := by
  unfold heading? at h
  split at h
  · obtain rfl := Option.some.inj h
    exact ⟨rfl, rfl⟩
  · obtain rfl := Option.some.inj h
    exact ⟨rfl, rfl⟩
  · exact absurd h nofun

theorem filter_isHeading (marks : List Mark) :
    (marks.filterMap Mark.heading?).filter Line.isHeading = marks.filterMap Mark.heading? := by
  rw [List.filter_eq_self]
  intro line hline
  obtain ⟨mark, -, hmark⟩ := List.mem_filterMap.1 hline
  exact (Mark.of_heading? hmark).1

/-- A line behind some headings is one of them or stands behind them all. -/
theorem suffix_of_headings {marks : List Mark} {line : Line} {after rest : List Line}
    (h : line :: after <:+ marks.filterMap Mark.heading? ++ rest) :
    (∃ mark ∈ marks, mark.heading? = some line ∧
        ∃ others : List Mark, after = others.filterMap Mark.heading? ++ rest) ∨
      line :: after <:+ rest := by
  induction marks with
  | nil => exact .inr h
  | cons mark others ih =>
    have hothers : line :: after <:+ others.filterMap Mark.heading? ++ rest →
        (∃ other ∈ mark :: others, other.heading? = some line ∧
          ∃ others : List Mark, after = others.filterMap Mark.heading? ++ rest) ∨
        line :: after <:+ rest := by
      intro hsuffix
      refine (ih hsuffix).imp_left ?_
      rintro ⟨other, hother, hline⟩
      exact ⟨other, List.mem_cons_of_mem _ hother, hline⟩
    cases hheading : mark.heading? with
    | none =>
      rw [List.filterMap_cons_none hheading] at h
      exact hothers h
    | some first =>
      rw [List.filterMap_cons_some hheading, List.cons_append, List.suffix_cons_iff] at h
      rcases h with heq | hsuffix
      · obtain ⟨rfl, rfl⟩ := List.cons.inj heq
        exact .inl ⟨mark, List.mem_cons_self, hheading, others, rfl⟩
      · exact hothers hsuffix

section Run

variable {d : Disassembler} {stop : UInt32} {s : State} {lines : List Line}

/-- The entry behind a heading begins at the address that the heading names. -/
theorem Runs.heading_announces (h : Runs d stop s lines) {line : Line} {after : List Line}
    (hsuffix : line :: after <:+ lines) (hheading : line.isHeading = true) :
    ∃ bytes, (after.filterMap extent?).head? = some (line.address, bytes) := by
  induction h with
  | done => exact absurd (List.suffix_nil.1 hsuffix) (List.cons_ne_nil _ _)
  | @entry s next entry bytes text rest hshows hlisted hrest ih =>
    have hentry : entry = .code s.position bytes text := hshows.line_eq
    rcases suffix_of_headings hsuffix with ⟨mark, hmark, hline, others, rfl⟩ | hsuffix
    · refine ⟨bytes, ?_⟩
      rw [(Mark.of_heading? hline).2, (mem_here.1 hmark).2, List.filterMap_append,
        extent?_heading, hentry]
      rfl
    · rcases List.suffix_cons_iff.1 hsuffix with heq | hsuffix
      · obtain ⟨rfl, -⟩ := List.cons.inj heq
        rw [hentry] at hheading
        exact absurd hheading Bool.false_ne_true
      · exact ih hsuffix

/-- The headings are those of the marks from the position up to the end. -/
theorem Runs.headings_eq (h : Runs d stop s lines) (hordered : Ordered s.marks) :
    lines.filter Line.isHeading =
      (s.marks.filter fun mark =>
        decide (s.position ≤ mark.address ∧ mark.address < stop)).filterMap Mark.heading? := by
  induction h with
  | @done s hstop =>
    have hnone : (s.marks.filter fun mark =>
        decide (s.position ≤ mark.address ∧ mark.address < stop)) = [] := by
      rw [List.filter_eq_nil_iff]
      intro mark _ hmark
      obtain ⟨hlow, hhigh⟩ := of_decide_eq_true hmark
      rw [hstop] at hlow
      exact UInt32.lt_irrefl _ (UInt32.lt_of_le_of_lt hlow hhigh)
    rw [hnone]
    rfl
  | @entry s next line bytes text rest hshows hlisted hrest ih =>
    have hline : line.isHeading = false := by
      rw [show line = .code s.position bytes text from hshows.line_eq]
      rfl
    obtain ⟨targets, htargets⟩ := hlisted.follows.marks_eq
    -- The marks at the position come first, and those behind it are left for the rest.
    have hhere : s.here.filter (fun mark => decide (mark.address < stop)) = s.here := by
      rw [List.filter_eq_self]
      intro mark hmark
      rw [(mem_here.1 hmark).2]
      have hpos := List.length_pos_of_ne_nil hshows.bytes_ne_nil
      have hle := hshows.le_stop
      exact decide_eq_true (UInt32.lt_iff_toNat_lt.2 (by omega))
    have hahead : (s.ahead.filter fun mark =>
        decide (next.position ≤ mark.address ∧ mark.address < stop)) =
          s.ahead.filter fun mark => decide (mark.address < stop) := by
      apply List.filter_congr
      intro mark hmark
      rw [decide_eq_decide, and_iff_right (hlisted.follows.le_address hordered hmark)]
    calc (s.here.filterMap Mark.heading? ++ line :: rest).filter Line.isHeading
        = s.here.filterMap Mark.heading? ++ rest.filter Line.isHeading := by
          rw [List.filter_append, filter_isHeading, List.filter_cons_of_neg (by simp [hline])]
      _ = s.here.filterMap Mark.heading? ++
            (s.ahead.filter fun mark => decide (mark.address < stop)).filterMap Mark.heading? := by
          rw [ih (hlisted.follows.ordered hordered), htargets, headings_withTargets, hahead]
      _ = ((s.here ++ s.ahead).filter fun mark => decide (mark.address < stop)).filterMap
            Mark.heading? := by
          rw [List.filter_append, List.filterMap_append, hhere]
      _ = (s.marks.filter fun mark =>
            decide (s.position ≤ mark.address ∧ mark.address < stop)).filterMap Mark.heading? := by
          rw [here_append_ahead hordered, List.filter_filter]
          congr 1
          apply List.filter_congr
          intro mark _
          rw [← Bool.decide_and, decide_eq_decide, and_comm]

end Run

theorem ordered_ofSymbol (table : SymbolTable) : Ordered (table.symbols.map Mark.ofSymbol) := by
  refine List.pairwise_map.2 (table.sorted.imp ?_)
  intro s t hst
  simp only [Symbol.precedes, Bool.or_eq_true, Bool.and_eq_true, decide_eq_true_eq,
    beq_iff_eq] at hst
  rcases hst with hlt | ⟨heq, -⟩
  · exact UInt32.le_of_lt hlt
  · exact UInt32.le_of_eq heq

theorem headings_ofSymbol (p : UInt32 → Bool) (symbols : List Symbol) :
    ((symbols.map Mark.ofSymbol).filter fun mark => p mark.address).filterMap Mark.heading? =
      (symbols.filter fun s => p s.address).map Symbol.heading := by
  rw [List.filter_map, List.filterMap_map]
  exact List.filterMap_eq_map_iff_forall_eq_some.2 fun s _ => Mark.heading?_ofSymbol s

theorem runs_listing {d : Disassembler} {start stop : UInt32}
    (hspans : Spans d.memory start stop) :
    Runs d stop ⟨start, d.symbols.symbols.map Mark.ofSymbol, none⟩ (d.listing start stop) := by
  have hbase := hspans.base_le
  have hstop := hspans.stop_le
  exact runs_linesFrom (s := ⟨start, _, none⟩) hspans (ordered_ofSymbol d.symbols) (by
    change stop.toNat - start.toNat < _
    omega)

end Listing

open Listing

/-- A listing names the symbols of its range, each once and in the order of the
table, and behind a name comes the entry at the address of the symbol.  No
entry hides a symbol. -/
theorem listing_shows_symbols (d : Disassembler) (start stop : UInt32)
    (htop : d.memory.base.toNat + d.memory.size < 2 ^ 32)
    (hinside : ∀ address, start ≤ address → address < stop →
      d.memory.contains address 1 = true) :
    (d.listing start stop).filter Line.isHeading =
        (d.symbols.symbols.filter fun s =>
          decide (start ≤ s.address ∧ s.address < stop)).map Symbol.heading ∧
      (∀ line after, line :: after <:+ d.listing start stop → line.isHeading = true →
        ∃ bytes, (after.filterMap extent?).head? = some (line.address, bytes)) ∧
      ∀ s ∈ d.symbols.symbols, ∀ address bytes text,
        .code address bytes text ∈ d.listing start stop →
          ¬ (address < s.address ∧ s.address.toNat < address.toNat + bytes.length) := by
  by_cases hlt : start < stop
  · have hruns := runs_listing (spans_of_inside htop hlt hinside)
    have hordered := ordered_ofSymbol d.symbols
    refine ⟨?_, fun line after => hruns.heading_announces, ?_⟩
    · exact (hruns.headings_eq hordered).trans
        (headings_ofSymbol (fun address => decide (start ≤ address ∧ address < stop)) _)
    · intro s hs address bytes text hmem ⟨hbefore, hinner⟩
      have hbounds := hruns.bounds hmem
      have hlow : start ≤ s.address :=
        UInt32.le_trans hbounds.1 (UInt32.le_of_lt hbefore)
      have hhigh : s.address < stop := UInt32.lt_iff_toNat_lt.2 (by omega)
      exact (hruns.resynchronize hordered (List.mem_map_of_mem hs) hlow hhigh).2
        address bytes text hmem ⟨hbefore, hinner⟩
  · have hle := UInt32.not_lt.1 hlt
    have hempty : d.listing start stop = [] := linesFrom_of_le hle _
    have hnone : (d.symbols.symbols.filter fun s =>
        decide (start ≤ s.address ∧ s.address < stop)) = [] := by
      rw [List.filter_eq_nil_iff]
      intro s _ hs
      obtain ⟨hlow, hhigh⟩ := of_decide_eq_true hs
      exact hlt (UInt32.lt_of_le_of_lt hlow hhigh)
    rw [hempty, hnone]
    refine ⟨rfl, fun line after hsuffix => ?_, fun s _ address bytes text hmem => ?_⟩
    · exact absurd (List.suffix_nil.1 hsuffix) (List.cons_ne_nil _ _)
    · exact absurd hmem List.not_mem_nil

/-- One symbol inside an instruction, and one inside the mask of the other. -/
theorem listing_shows_symbols_inside :
    let unit : Symbol := ⟨"a.o", 4, 0, 0, 0x1000, 0x1000⟩
    let outer : Symbol := ⟨"_f", 5, 0, 0, 0x1001, 0x1001⟩
    let inner : Symbol := ⟨"_g", 5, 0, 0, 0x1002, 0x1002⟩
    let beyond : Symbol := ⟨"_h", 5, 0, 0, 0x1004, 0x1004⟩
    let table : SymbolTable := ⟨[unit, outer, inner, beyond], by decide +kernel⟩
    let d : Disassembler := ⟨Memory.ofBytes 0x1000 [0xd0, 0x51, 0x52, 0x01], table, none⟩
    d.listing 0x1000 0x1004 =
        [.unit 0x1000 "a.o", .code 0x1000 [0xd0] ".byte 0xd0",
          .label 0x1001 "_f", .code 0x1001 [0x51] ".byte 0x51",
          .label 0x1002 "_g", .code 0x1002 [0x52, 0x01] ".word 0x152"] ∧
      (d.listing 0x1000 0x1004).filter Line.isHeading =
        [unit, outer, inner].map Symbol.heading ∧
      (∃ bytes, ([Line.code 0x1002 [0x52, 0x01] ".word 0x152"].filterMap extent?).head? =
        some (0x1002, bytes)) ∧
      ∀ address bytes text, .code address bytes text ∈ d.listing 0x1000 0x1004 →
        ¬ (address < inner.address ∧ inner.address.toNat < address.toNat + bytes.length) := by
  intro unit outer inner beyond table d
  have hlisting : d.listing 0x1000 0x1004 =
      [.unit 0x1000 "a.o", .code 0x1000 [0xd0] ".byte 0xd0",
        .label 0x1001 "_f", .code 0x1001 [0x51] ".byte 0x51",
        .label 0x1002 "_g", .code 0x1002 [0x52, 0x01] ".word 0x152"] := by
    decide +kernel
  have htop : d.memory.base.toNat + d.memory.size < 2 ^ 32 := by decide +kernel
  have hinside : ∀ address, (0x1000 : UInt32) ≤ address → address < 0x1004 →
      d.memory.contains address 1 = true := contains_ofBytes (by decide +kernel) (by decide +kernel)
  obtain ⟨hheadings, hannounced, hshown⟩ := listing_shows_symbols d 0x1000 0x1004 htop hinside
  refine ⟨hlisting, ?_, ?_, hshown inner (by decide +kernel)⟩
  · rw [hheadings]
    decide +kernel
  · refine hannounced (.label 0x1002 "_g") _ ?_ rfl
    rw [hlisting]
    exact ⟨[_, _, _, _], rfl⟩

end Vax
