import Boutique.Core.Memory

namespace Boutique.Core.NullTerminated

/-! `NullTerminatedString`, the one reader that looks for the end of what it
reads by itself. A `ConstBuffer` is the offset of `data` in the memory it points
into and a `std::size_t`. -/

structure ConstBuffer where
  data : Nat
  len : UInt64
deriving DecidableEq, Repr

/-- `while (*c.data++) count++` over the bytes from `data` to the end of the
memory: the offsets it examines, and `c.data` and `count` when it ends. There is
no such end where it runs out of the memory. -/
def scan : Bytes → Nat → Nat → List Nat × Option (Nat × Nat)
  | [], data, _ => ([data], none)
  | byte :: bytes, data, count =>
      if byte = 0 then ([data], some (data + 1, count))
      else
        let (examined, ended) := scan bytes (data + 1) (count + 1)
        (data :: examined, ended)

/-- `read<NullTerminatedString>`: the offsets it examines, and its result with
the cursor it leaves. -/
def read (memory : Bytes) (c : ConstBuffer) :
    List Nat × Option (Option Bytes × ConstBuffer) :=
  let (examined, ended) := scan (memory.drop c.data) c.data 0
  (examined, ended.map fun (data, count) =>
    (some (slice memory c.data count), { data, len := c.len - UInt64.ofNat count }))

/-- `count` reads in a row. -/
def reads (memory : Bytes) : Nat → ConstBuffer → Option (List (Option Bytes) × ConstBuffer)
  | 0, c => some ([], c)
  | count + 1, c => do
      let (s, c) ← (read memory c).2
      let (later, c) ← reads memory count c
      return (s :: later, c)

/-- `write(write_fn, NullTerminatedString)`. -/
def write (s : Bytes) : Bytes := s ++ [0]

/-- A buffer over `content`, with other memory in front of it and beyond. -/
def cursorOver (front content : Bytes) : ConstBuffer :=
  { data := front.length, len := UInt64.ofNat content.length }

/-- What is written for `s` in front of `t` reads as `s`, and leaves `t`. -/
def ReadsBack (front s t beyond : Bytes) : Prop :=
  (read (front ++ (write s ++ t) ++ beyond) (cursorOver front (write s ++ t))).2 =
    some (some s, cursorOver (front ++ write s) t)

/-- Reading `content` examines no byte behind it. -/
def StaysInside (front content beyond : Bytes) : Prop :=
  ∀ offset ∈ (read (front ++ content ++ beyond) (cursorOver front content)).1,
    offset < front.length + content.length

/-- Reading `content` gives `std::nullopt`. -/
def GivesUp (front content beyond : Bytes) : Prop :=
  ∃ c, (read (front ++ content ++ beyond) (cursorOver front content)).2 = some (none, c)

variable {s t front content beyond rest : Bytes} {data count : Nat}

theorem scan_examines (bytes : Bytes) : data ∈ (scan bytes data count).1 := by
  cases bytes with
  | nil => exact List.mem_cons_self
  | cons byte bytes =>
      rw [scan]
      split <;> exact List.mem_cons_self

/-- The loop stops behind the first zero byte. -/
theorem scan_terminated (noZero : 0 ∉ s) :
    (scan (s ++ 0 :: rest) data count).2 = some (data + (s.length + 1), count + s.length) := by
  induction s generalizing data count with
  | nil => rfl
  | cons byte s ih =>
      rw [List.mem_cons, not_or] at noZero
      rw [List.cons_append, scan, if_neg (Ne.symm noZero.1)]
      dsimp only
      rw [ih noZero.2, List.length_cons]
      congr 2 <;> omega

/-- Without one it goes on behind the content. -/
theorem scan_unterminated (noZero : 0 ∉ content) :
    data + content.length ∈ (scan (content ++ beyond) data count).1 := by
  induction content generalizing data count with
  | nil => exact scan_examines beyond
  | cons byte content ih =>
      rw [List.mem_cons, not_or] at noZero
      rw [List.cons_append, scan, if_neg (Ne.symm noZero.1), List.length_cons,
        Nat.add_comm content.length, ← Nat.add_assoc]
      exact List.mem_cons_of_mem data (ih noZero.2)

/-- Reading back gives the string and moves `data` behind its zero byte, but
takes no more than the string off `len`. -/
theorem read_write (noZero : 0 ∉ s) {len : UInt64} :
    (read (front ++ write s ++ rest) { data := front.length, len }).2 =
      some (some s, { data := (front ++ write s).length, len := len - UInt64.ofNat s.length }) := by
  have memory : front ++ write s ++ rest = front ++ (s ++ 0 :: rest) := by
    rw [write, List.append_assoc, List.append_assoc, List.singleton_append]
  have string : slice (front ++ (s ++ 0 :: rest)) front.length s.length = s := by
    rw [slice, List.drop_left, List.take_left]
  rw [read, memory, List.drop_left]
  dsimp only
  rw [scan_terminated noZero, Option.map_some, Nat.zero_add, string, List.length_append, write,
    List.length_append, List.length_singleton]

theorem length_sub (s t : Bytes) :
    UInt64.ofNat (write s ++ t).length - UInt64.ofNat s.length = UInt64.ofNat (t.length + 1) := by
  have split : (write s ++ t).length = t.length + 1 + s.length := by
    rw [write, List.length_append, List.length_append, List.length_singleton]
    omega
  rw [split, UInt64.ofNat_add, UInt64.add_sub_cancel]

/-- The length is too long by one byte for each string read. -/
theorem reads_writes {strings : List Bytes} (noZeros : ∀ s ∈ strings, 0 ∉ s) (slack : Nat) :
    reads (front ++ (strings.flatMap write ++ t)) strings.length
        { data := front.length,
          len := UInt64.ofNat ((strings.flatMap write ++ t).length + slack) } =
      some (strings.map some,
        { data := (front ++ strings.flatMap write).length,
          len := UInt64.ofNat (t.length + (strings.length + slack)) }) := by
  induction strings generalizing front slack with
  | nil => simp [reads]
  | cons s strings ih =>
      rw [List.forall_mem_cons] at noZeros
      have memory : front ++ ((s :: strings).flatMap write ++ t) =
          front ++ write s ++ (strings.flatMap write ++ t) := by
        rw [List.flatMap_cons, List.append_assoc, List.append_assoc]
      have length : ((s :: strings).flatMap write ++ t).length + slack =
          (strings.flatMap write ++ t).length + (slack + 1) + s.length := by
        rw [List.flatMap_cons, List.append_assoc, List.length_append, write, List.length_append,
          List.length_singleton]
        omega
      rw [List.length_cons, reads, memory, length, UInt64.ofNat_add, read_write noZeros.1,
        UInt64.add_sub_cancel]
      simp only [Option.bind_eq_bind, Option.bind_some, ih noZeros.2]
      rw [List.flatMap_cons, List.append_assoc, Nat.add_assoc, Nat.add_comm 1]
      rfl

/-- The cursor that is left has one byte more than `t`. -/
theorem readsBack_off_by_one (noZero : 0 ∉ s) :
    (read (front ++ (write s ++ t) ++ beyond) (cursorOver front (write s ++ t))).2 =
      some (some s,
        { cursorOver (front ++ write s) t with len := UInt64.ofNat (t.length + 1) }) := by
  have memory : front ++ (write s ++ t) ++ beyond = front ++ write s ++ (t ++ beyond) := by
    simp only [List.append_assoc]
  rw [memory, cursorOver, read_write noZero, length_sub]
  rfl

theorem not_readsBack (noZero : 0 ∉ s) : ¬ ReadsBack front s t beyond := by
  intro back
  rw [ReadsBack, readsBack_off_by_one noZero] at back
  have same : UInt64.ofNat (t.length + 1) = UInt64.ofNat t.length :=
    congrArg ConstBuffer.len (congrArg Prod.snd (Option.some.inj back))
  rw [UInt64.ofNat_add, UInt64.add_eq_left] at same
  cases same

theorem not_staysInside (noZero : 0 ∉ content) : ¬ StaysInside front content beyond := by
  intro inside
  have examined : front.length + content.length ∈
      (read (front ++ content ++ beyond) (cursorOver front content)).1 := by
    rw [read, cursorOver, List.append_assoc, List.drop_left]
    exact scan_unterminated noZero
  exact Nat.lt_irrefl _ (inside _ examined)

theorem not_givesUp : ¬ GivesUp front content beyond := by
  intro gaveUp
  obtain ⟨c, gaveUp⟩ := gaveUp
  rw [read, Option.map_eq_some_iff] at gaveUp
  obtain ⟨_, _, result⟩ := gaveUp
  cases result

/-- No string is read back with the length of what is left, and every buffer
without a zero byte is read beyond its end and never given up. -/
theorem null_terminated_never (front beyond : Bytes) :
    (∀ s t, 0 ∉ s → ¬ ReadsBack front s t beyond) ∧
      ∀ content, 0 ∉ content →
        ¬ StaysInside front content beyond ∧ ¬ GivesUp front content beyond :=
  ⟨fun _ _ noZero => not_readsBack noZero,
    fun _ noZero => ⟨not_staysInside noZero, not_givesUp⟩⟩

theorem null_terminated_never_hi :
    ¬ ReadsBack [] [104, 105] [33] [] ∧
      ¬ StaysInside [] [104, 105] [0] ∧ ¬ GivesUp [] [104, 105] [0] :=
  ⟨(null_terminated_never [] []).1 [104, 105] [33] (by decide),
    (null_terminated_never [] [0]).2 [104, 105] (by decide)⟩

/-- `hi` and its zero byte are read in front of one more byte, of which the cursor
makes two. -/
theorem hi_leaves_two : 0 ∉ ([104, 105] : Bytes) ∧ ¬ ReadsBack [] [104, 105] [33] [] := by
  have left : (read [104, 105, 0, 33] { data := 0, len := 4 }).2 =
      some (some [104, 105], { data := 3, len := 2 }) := by decide
  refine ⟨by decide, fun back => ?_⟩
  have other : (read [104, 105, 0, 33] { data := 0, len := 4 }).2 =
      some (some [104, 105], { data := 3, len := 1 }) := back
  rw [left] at other
  exact absurd other (by decide)

end Boutique.Core.NullTerminated
