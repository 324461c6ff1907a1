import GuestStorage.Proofs.Memory.Filling
import GuestStorage.Proofs.Session.Writing

namespace GuestStorage

namespace Bytes

/-- Bytes at an offset and zeros behind them, up to a length; all other bytes stay, and a gap before the offset
    is filled with zeros. -/
def laid (old : Bytes) (offset length : Nat) (data : Bytes) : Bytes :=
  (List.range (max old.length (offset + length))).map fun i =>
    if offset ≤ i ∧ i < offset + length then data.getD (i - offset) 0 else old.getD i 0

theorem getElem?_resize (bytes : Bytes) (length i : Nat) :
    (bytes.resize length)[i]? = if i < length then some (bytes.getD i 0) else none := by
  split
  · rename_i inside
    by_cases short : i < bytes.length
    · rw [resize, List.getElem?_append_left (by simp; omega), List.getElem?_take_of_lt inside]
      simp [short]
    · rw [resize, List.getElem?_append_right (by simp; omega), zeros, List.getElem?_replicate,
        List.length_take, if_pos (by omega)]
      simp [List.getElem?_eq_none (Nat.not_lt.mp short)]
  · rename_i outside
    simpa using Nat.not_lt.mp outside

theorem overwrite_resize (old : Bytes) (offset length : Nat) (data : Bytes) :
    old.overwrite offset (data.resize length) = old.laid offset length data := by
  -- byte by byte: the gap, the data with their zeros, and what stood behind them
  refine List.ext_getElem? fun i => ?_
  have front : (old.resize offset ++ data.resize length).length = offset + length := by simp
  rw [overwrite, length_resize, laid, List.getElem?_map]
  by_cases before : i < offset + length
  · rw [List.getElem?_append_left (by omega), List.getElem?_range (by omega), Option.map_some]
    by_cases gap : i < offset
    · rw [List.getElem?_append_left (by simpa using gap), getElem?_resize, if_pos gap, if_neg (by omega)]
    · rw [List.getElem?_append_right (by simpa using gap), getElem?_resize, length_resize,
        if_pos (by omega), if_pos (by omega)]
  · rw [List.getElem?_append_right (by omega), front, List.getElem?_drop]
    have place : offset + length + (i - (offset + length)) = i := by omega
    rw [place]
    by_cases old' : i < old.length
    · rw [List.getElem?_range (by omega), Option.map_some, if_neg (by omega)]
      simp [old']
    · have past : (List.range (max old.length (offset + length)))[i]? = none := by simp; omega
      rw [past, List.getElem?_eq_none (Nat.not_lt.mp old')]
      rfl

theorem take_resize (bytes : Bytes) {count length : Nat} (within : count ≤ length) :
    (bytes.resize length).take count = bytes.resize count := by
  refine List.ext_getElem? fun i => ?_
  rw [List.getElem?_take, getElem?_resize, getElem?_resize]
  by_cases inside : i < count
  · rw [if_pos inside, if_pos inside, if_pos (by omega)]
  · rw [if_neg inside, if_neg inside]

end Bytes

open Memory GuestStorage.Tree

/-- A file holds data at an offset and zeros behind them, up to a length, and nothing else is different. -/
structure Memory.Guarded.Lays (g g' : Guarded) (file : FileId) (offset length : Nat) (data : Bytes) : Prop where
  rules : SameRules g g'
  fills : g.store.FillsFile g'.store file (·.laid offset length data)

namespace Session.OpenFile

structure Stretch where
  offset : Nat
  bytes : Bytes
  deriving DecidableEq

def padding (offset count : Nat) : List Stretch :=
  (List.range ((count + (paddingChunk - 1)) / paddingChunk)).map fun i =>
    ⟨offset + i * paddingChunk, Bytes.zeros (min (count - i * paddingChunk) paddingChunk)⟩

def stretches (extent : Extent) (data : Bytes) : List Stretch :=
  ⟨extent.offset, data⟩ :: padding (extent.offset + data.length) (extent.length - data.length)

def joined (runs : List Stretch) : Bytes := runs.flatMap (·.bytes)

def Consecutive : Nat → List Stretch → Prop
  | _, [] => True
  | start, x :: rest => x.offset = start ∧ Consecutive (start + x.bytes.length) rest

section Feeding

variable {σ F D : Type} [Backing σ F D] {file : FileView F}

def feed (file : FileView F) : σ → List Stretch → Nat × σ
  | s, [] => (0, s)
  | s, x :: rest =>
    let (count, s) := file.write s x.offset x.bytes
    if count < x.bytes.length then (count, s)
    else
      let (more, s) := feed file s rest
      (count + more, s)

def TakesAll (file : FileView F) : σ → List Stretch → Prop
  | _, [] => True
  | s, x :: rest =>
    (file.write s x.offset x.bytes).1 = x.bytes.length ∧ TakesAll file (file.write s x.offset x.bytes).2 rest

theorem padding_zero (offset : Nat) : padding offset 0 = [] := rfl

theorem length_padding_le (offset count : Nat) : (padding offset count).length ≤ count := by
  simp only [padding, List.length_map, List.length_range, paddingChunk]
  omega

theorem padding_of_pos (offset : Nat) {count : Nat} (some : 0 < count) :
    padding offset count = ⟨offset, Bytes.zeros (min count paddingChunk)⟩ ::
      padding (offset + min count paddingChunk) (count - min count paddingChunk) := by
  have rounds : (count + (paddingChunk - 1)) / paddingChunk =
      (count - min count paddingChunk + (paddingChunk - 1)) / paddingChunk + 1 := by
    simp only [paddingChunk]
    omega
  rw [padding, rounds, List.range_succ_eq_map, List.map_cons, List.map_map, padding]
  congr 1
  refine List.map_congr_left fun i within => ?_
  rw [List.mem_range] at within
  simp only [paddingChunk] at within ⊢
  simp only [Function.comp_apply, Stretch.mk.injEq]
  exact ⟨by omega, by congr 1; omega⟩

theorem padding_induction {property : Nat → Nat → Prop} (none : ∀ offset, property offset 0)
    (next : ∀ offset count, 0 < count →
      property (offset + min count paddingChunk) (count - min count paddingChunk) → property offset count)
    (offset count : Nat) : property offset count := by
  induction size : count using Nat.strong_induction_on generalizing offset count with
  | _ n ih =>
    subst size
    rcases Nat.eq_zero_or_pos count with rfl | some
    · exact none offset
    · refine next offset count some (ih _ ?_ _ _ rfl)
      simp only [paddingChunk]
      omega

theorem joined_padding (offset count : Nat) : joined (padding offset count) = Bytes.zeros count := by
  induction offset, count using padding_induction with
  | none offset => rfl
  | next offset count some rest =>
    rw [padding_of_pos offset some, joined, List.flatMap_cons, ← joined, rest, Bytes.zeros, Bytes.zeros,
      List.replicate_append_replicate, Bytes.zeros]
    congr 1
    omega

theorem consecutive_padding (offset count : Nat) : Consecutive offset (padding offset count) := by
  induction offset, count using padding_induction with
  | none offset => trivial
  | next offset count some rest =>
    rw [padding_of_pos offset some]
    exact ⟨rfl, by rwa [Bytes.length_zeros]⟩

theorem joined_stretches (extent : Extent) {data : Bytes} (fits : data.length ≤ extent.length) :
    joined (stretches extent data) = data.resize extent.length := by
  rw [stretches, joined, List.flatMap_cons, ← joined, joined_padding, Bytes.resize_of_le fits]

theorem consecutive_stretches (extent : Extent) (data : Bytes) :
    Consecutive extent.offset (stretches extent data) := ⟨rfl, consecutive_padding _ _⟩

theorem Consecutive.end_le {runs : List Stretch} {start : Nat} (consecutive : Consecutive start runs) :
    ∀ x ∈ runs, x.offset + x.bytes.length ≤ start + (joined runs).length := by
  induction runs generalizing start with
  | nil => simp
  | cons x rest ih =>
    obtain ⟨rfl, others⟩ := consecutive
    intro y listed
    rw [joined, List.flatMap_cons, ← joined, List.length_append]
    rcases List.mem_cons.mp listed with rfl | later
    · omega
    · have bound := ih others y later
      omega

variable (bounded : ∀ (s : σ) offset data, (file.write s offset data).1 ≤ data.length)
include bounded

theorem pad_eq_feed (extent : Extent) {rounds written : Nat} (s : σ) (short : written ≤ extent.length)
    (enough : (padding (extent.offset + written) (extent.length - written)).length ≤ rounds) :
    pad file extent rounds s written =
      (written + (feed file s (padding (extent.offset + written) (extent.length - written))).1,
        (feed file s (padding (extent.offset + written) (extent.length - written))).2) := by
  induction rounds generalizing s written with
  | zero =>
    rw [Nat.le_zero, List.length_eq_zero_iff] at enough
    rw [enough]
    rfl
  | succ rounds ih =>
    rw [pad]
    split
    · -- one round is one run, and the rounds that are left suffice for the runs that are left
      rename_i left
      rw [padding_of_pos _ (by omega), List.length_cons] at enough
      rw [padding_of_pos _ (by omega)]
      generalize size : min (extent.length - written) paddingChunk = chunk at enough ⊢
      have small : chunk ≤ extent.length - written := by omega
      have most := bounded s (extent.offset + written) (Bytes.zeros chunk)
      rcases wrote : file.write s (extent.offset + written) (Bytes.zeros chunk) with ⟨count, s'⟩
      simp only [feed, wrote, Bytes.length_zeros] at most ⊢
      split
      · rfl
      · obtain rfl : count = chunk := by omega
        have rest : extent.length - (written + count) = extent.length - written - count := by omega
        rw [Nat.add_assoc] at enough ⊢
        rw [ih s' (by omega) (by rw [rest]; omega), rest, Nat.add_assoc]
    · obtain rfl : written = extent.length := by omega
      rw [Nat.sub_self, padding_zero]
      rfl

theorem writePadded_eq_feed {extent : Extent} {data : Bytes} (s : σ) (fits : data.length ≤ extent.length) :
    writePadded s file extent data = feed file s (stretches extent data) := by
  have most := bounded s extent.offset data
  rw [writePadded, stretches, feed]
  rcases wrote : file.write s extent.offset data with ⟨count, s'⟩
  rw [wrote] at most
  dsimp only at most ⊢
  split
  · rename_i whole
    obtain rfl : count = data.length := beq_iff_eq.mp whole
    rw [if_neg (Nat.lt_irrefl _), pad_eq_feed bounded extent s' fits]
    exact (length_padding_le _ _).trans (Nat.sub_le _ _)
  · rename_i part
    have apart : count ≠ data.length := fun same => part (beq_iff_eq.mpr same)
    rw [if_pos (by omega)]

end Feeding

section Guarding

variable {g₀ g : Guarded} {file : FileView FileId} {runs : List Stretch}

theorem feed_fills {change : Bytes → Bytes} (start : Nat) (before : Bytes) (writable : file.isWritable g = true)
    (rules : g₀.SameRules g) (fills : g₀.store.FillsFile g.store file.node change)
    (last : runs = [] → ∀ bytes, change bytes = bytes.overwrite start before)
    (further : ∀ bytes more,
      (change bytes).overwrite (start + before.length) more = bytes.overwrite start (before ++ more))
    (consecutive : Consecutive (start + before.length) runs)
    (short : start + before.length + (joined runs).length < Store.endLimit) :
    ∃ count g', feed file g runs = (count, g') ∧ count ≤ (joined runs).length ∧
      (count = (joined runs).length ↔ TakesAll file g runs) ∧ g₀.SameRules g' ∧
      g₀.store.FillsFile g'.store file.node (·.overwrite start (before ++ (joined runs).take count)) := by
  induction runs generalizing g before change with
  | nil =>
    refine ⟨0, g, rfl, Nat.le_refl _, by simp [joined, TakesAll], rules, fills.congr fun bytes => ?_⟩
    rw [last rfl, joined, List.flatMap_nil, List.take_nil, List.append_nil]
  | cons x rest ih =>
    obtain ⟨begins, others⟩ := consecutive
    have all : joined (x :: rest) = x.bytes ++ joined rest := rfl
    rw [all, List.length_append] at short
    obtain ⟨g₁, wrote, rules₁, fills₁⟩ := Guarded.write_taken writable x.offset x.bytes (by omega)
    have sent := g.taken_prefix file.node x.bytes
    have size := sent.length_le
    have both : g₀.store.FillsFile g₁.store file.node
        (·.overwrite start (before ++ g.taken file.node x.bytes)) :=
      fills.trans fills₁ fun bytes => by rw [begins, further]
    simp only [feed, TakesAll, wrote, all, List.length_append]
    split
    · -- a run that is not taken whole is the last one
      rename_i part
      refine ⟨_, g₁, rfl, by omega, ?_, rules.trans rules₁, both.congr fun bytes => ?_⟩
      · exact ⟨fun same => by omega, fun whole => by omega⟩
      · rw [List.take_append_of_le_length size, ← List.prefix_iff_eq_take.mp sent]
    · rename_i whole
      have same : g.taken file.node x.bytes = x.bytes := sent.eq_of_length (by omega)
      rw [same] at both ⊢
      obtain ⟨count, g', fed, most, complete, rules', fills'⟩ := ih (before ++ x.bytes)
        ((rules₁.isWritable fills₁ file).trans writable) (rules.trans rules₁) both (fun _ _ => rfl)
        (fun bytes more => by rw [Bytes.overwrite_append, List.append_assoc])
        (by rwa [List.length_append, ← Nat.add_assoc]) (by rw [List.length_append]; omega)
      rw [fed]
      refine ⟨_, g', rfl, by omega, ?_, rules', ?_⟩
      · rw [Nat.add_left_cancel_iff, complete]
        simp
      · rw [List.take_length_add_append, ← List.append_assoc]
        exact fills'

theorem takesAll_iff (writable : file.isWritable g = true)
    (short : ∀ x ∈ runs, x.offset + x.bytes.length < Store.endLimit) :
    TakesAll file g runs ↔ ∀ limit, (g.fileRefusals file.node).writeLimit = some limit →
      ∀ x ∈ runs, x.bytes.length ≤ limit := by
  induction runs generalizing g with
  | nil => simp [TakesAll]
  | cons x rest ih =>
    obtain ⟨g₁, wrote, rules₁, fills₁⟩ :=
      Guarded.write_taken writable x.offset x.bytes (short x List.mem_cons_self)
    rw [TakesAll, wrote, ih ((rules₁.isWritable fills₁ file).trans writable) fun y later =>
      short y (List.mem_cons_of_mem x later), rules₁.fileRefusals fills₁, Guarded.length_taken_iff]
    constructor
    · rintro ⟨first, others⟩ limit limited
      exact List.forall_mem_cons.mpr ⟨first limit limited, others limit limited⟩
    · intro every
      exact ⟨fun limit limited => every limit limited x List.mem_cons_self,
        fun limit limited y later => every limit limited y (List.mem_cons_of_mem x later)⟩

end Guarding

theorem stretches_short {offset length : Int64} {extent : Extent} {data : Bytes}
    (checked : Extent.check offset length = .ok extent) (fits : data.length ≤ extent.length) :
    ∀ x ∈ stretches extent data, x.offset + x.bytes.length < Store.endLimit := by
  intro x listed
  have within := (consecutive_stretches extent data).end_le x listed
  have short := endLimit_of_check checked
  rw [joined_stretches extent fits, Bytes.length_resize] at within
  omega

/-- A write that may go ahead counts what arrives, and that much of the data and the zeros behind it stands in
    the file. -/
theorem writePadded_fills {g : Guarded} {file : FileView FileId} {offset length : Int64} {extent : Extent}
    {data : Bytes} (writable : file.isWritable g = true) (checked : Extent.check offset length = .ok extent)
    (fits : data.length ≤ extent.length) :
    ∃ arrived g', writePadded g file extent data = (arrived, g') ∧ arrived ≤ extent.length ∧
      (arrived = extent.length ↔ TakesAll file g (stretches extent data)) ∧
      g.Lays g' file.node extent.offset arrived data := by
  have short := endLimit_of_check checked
  have all := joined_stretches extent fits
  have size : (joined (stretches extent data)).length = extent.length := by rw [all, Bytes.length_resize]
  have same : g.store.FillsFile g.store file.node id := ⟨fun other => by simp, fun other => rfl⟩
  have proper : stretches extent data = [] → ∀ bytes : Bytes, id bytes = bytes.overwrite extent.offset [] :=
    fun none => nomatch none
  obtain ⟨arrived, g', fed, most, whole, rules, fills⟩ := feed_fills extent.offset [] writable ⟨rfl, rfl⟩
    same proper (fun bytes more => rfl)
    (consecutive_stretches extent data) (by rw [size]; exact short)
  rw [size] at most whole
  refine ⟨arrived, g', ?_, most, whole, ⟨rules, fills.congr fun bytes => ?_⟩⟩
  · rw [writePadded_eq_feed (Guarded.write_le · file) g fits, fed]
  · rw [← Bytes.overwrite_resize, all, List.nil_append, Bytes.take_resize data most]

theorem write_of_long {s : Guarded} {opened : OpenFile FileId} {offset length : Int64} {extent : Extent}
    {data : Bytes} (checked : Extent.check offset length = .ok extent) (allowed : opened.mayWrite s = true)
    (long : extent.length < data.length) :
    opened.write s offset length data = (.error (.violated (.bufferTooLong data.length extent.length)), s) := by
  rw [write, checked]
  simp only [allowed, Bool.not_true, Bool.false_eq_true, if_false, if_pos long]

theorem write_of_fits {s s' : Guarded} {opened : OpenFile FileId} {offset length : Int64} {extent : Extent}
    {data : Bytes} {arrived : Nat} (checked : Extent.check offset length = .ok extent)
    (allowed : opened.mayWrite s = true) (fits : data.length ≤ extent.length)
    (wrote : writePadded s opened.file extent data = (arrived, s')) :
    opened.write s offset length data =
      (if arrived = extent.length then .ok ()
        else .error (.violated (.shortWrite arrived extent.length)), s') := by
  rw [write, checked]
  simp only [allowed, Bool.not_true, Bool.false_eq_true, if_false, if_neg (Nat.not_lt.mpr fits), wrote, beq_iff_eq]
  split <;> rfl

/-- What a write through an open file does. Terms that no write can meet are refused one after the other, and
    data beyond the declared length are not begun with; nothing is different then. Otherwise the data and the zeros
    behind them go to the file run by run. Exactly if each run is taken whole does the write succeed, and the range
    then holds the data and the zeros; else it is broken off, and as much of them as has arrived stands in the
    file. No other byte, no other file and no directory is different. No run ends beyond the limit of offsets, and
    the padding is through when all its runs were written, however many more rounds it is given. -/
theorem write_exact (g : Guarded) (opened : OpenFile FileId) (offset length : Int64) (data : Bytes) :
    let file := opened.file
    let start := offset.toInt.toNat
    let count := length.toInt.toNat
    let runs := stretches ⟨start, count⟩ data
    let outcome := opened.write g offset length data
    (length < 0 → outcome = (.error (.refused .invalidSize), g)) ∧
    (0 ≤ length → offset < 0 → outcome = (.error (.refused .invalidOffset), g)) ∧
    (0 ≤ length → 0 ≤ offset → opened.mode.needsWrite = false ∨ file.isWritable g = false →
      outcome = (.error (.refused .permissionDenied), g)) ∧
    (0 ≤ length → 0 ≤ offset → opened.mode.needsWrite = true → file.isWritable g = true →
      (count < data.length → outcome = (.error (.violated (.bufferTooLong data.length count)), g)) ∧
      (data.length ≤ count →
        (outcome.1 = .ok () ↔ TakesAll file g runs) ∧
        (TakesAll file g runs ↔ ∀ limit, (g.fileRefusals file.node).writeLimit = some limit →
          ∀ x ∈ runs, x.bytes.length ≤ limit) ∧
        (outcome.1 = .ok () → g.Lays outcome.2 file.node start count data) ∧
        (outcome.1 ≠ .ok () → ∃ arrived, arrived < count ∧
          outcome.1 = .error (.violated (.shortWrite arrived count)) ∧
          g.Lays outcome.2 file.node start arrived data) ∧
        (∀ x ∈ runs, x.offset + x.bytes.length < 2 ^ 64) ∧
        ∀ rounds (g₁ : Guarded), (padding (start + data.length) (count - data.length)).length ≤ rounds →
          pad file ⟨start, count⟩ rounds g₁ data.length = pad file ⟨start, count⟩ count g₁ data.length)) := by
  intro file start count runs outcome
  refine ⟨fun negative => ?_, fun fits negative => ?_, fun fits starts closed => ?_,
    fun fits starts writes writable => ⟨fun long => ?_, fun short => ?_⟩⟩
  · simp only [outcome, write, Extent.check, if_pos negative]
  · simp only [outcome, write, Extent.check, if_neg (Int64.not_lt.mpr fits), if_pos negative]
  · have checked := Extent.check_eq_ok_iff.mpr ⟨fits, starts, rfl⟩
    have denied : opened.mayWrite g = false := by
      rcases closed with closed | closed <;> simp [mayWrite, file, closed]
    simp [outcome, write, checked, denied]
  · have checked := Extent.check_eq_ok_iff.mpr ⟨fits, starts, rfl⟩
    exact write_of_long checked (by simp [mayWrite, writes, file, writable]) long
  · have checked := Extent.check_eq_ok_iff.mpr ⟨fits, starts, rfl⟩
    have allowed : opened.mayWrite g = true := by simp [mayWrite, writes, file, writable]
    have ends := stretches_short checked short
    obtain ⟨arrived, g', wrote, most, whole, lays⟩ := writePadded_fills writable checked short
    have done : outcome = _ := write_of_fits checked allowed short wrote
    have through (rounds : Nat) (g₁ : Guarded)
        (enough : (padding (start + data.length) (count - data.length)).length ≤ rounds) :=
      pad_eq_feed (Guarded.write_le · file) ⟨start, count⟩ g₁ short enough
    rw [done, ← whole]
    refine ⟨by split <;> simp_all, whole.trans (takesAll_iff writable ends), fun succeeded => ?_, fun failed => ?_,
      ends, fun rounds g₁ enough => ?_⟩
    · split at succeeded
      · rename_i all
        rwa [all] at lays
      · cases succeeded
    · split at failed
      · exact absurd rfl failed
      · rename_i part
        exact ⟨arrived, Nat.lt_of_le_of_ne most part, if_neg part, lays⟩
    · rw [through rounds g₁ enough, through count g₁ ((length_padding_le _ _).trans (Nat.sub_le _ _))]

def pinched : Guarded where
  store := (Store.empty.plant "root" false [.file "f" [1, 2, 3] false, .file "g" [1, 2, 3] false]).2
  ofFile path := { writeLimit := if path == "root/f" then some 1 else none }

theorem pinched_write :
    (OpenFile.write pinched ⟨.direct ⟨0⟩, .write⟩ 1 3 [9]).1 ≠ .ok () ∧
      (OpenFile.write pinched ⟨.direct ⟨1⟩, .readWrite⟩ 1 3 [9]).1 = .ok () ∧
      (OpenFile.write pinched ⟨.direct ⟨1⟩, .readWrite⟩ 1 3 [9]).2.store.fileBytes ⟨1⟩ = [1, 9, 0, 0] := by
  have narrow := (write_exact pinched ⟨.direct ⟨0⟩, .write⟩ 1 3 [9]).2.2.2 (by decide) (by decide) rfl
    (by decide +kernel)
  have wide := (write_exact pinched ⟨.direct ⟨1⟩, .readWrite⟩ 1 3 [9]).2.2.2 (by decide) (by decide) rfl
    (by decide +kernel)
  obtain ⟨okIff, takesIff, -⟩ := narrow.2 (by decide)
  obtain ⟨okIff', takesIff', lays, -⟩ := wide.2 (by decide)
  have whole := okIff'.mpr (takesIff'.mpr fun limit limited => by
    have none : (pinched.fileRefusals ⟨1⟩).writeLimit = none := by decide +kernel
    cases none.symm.trans limited)
  refine ⟨fun succeeded => ?_, whole, ?_⟩
  · have small := takesIff.mp (okIff.mp succeeded) 1 (by decide +kernel) ⟨2, [0, 0]⟩ (by decide)
    exact absurd small (by decide)
  · rw [(lays whole).fills.fileBytes (by decide +kernel)]
    decide +kernel

end Session.OpenFile

end GuestStorage
