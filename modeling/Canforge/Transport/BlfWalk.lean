/-
# The walk over a BLF file

`Contents data cursor records` says what a buffer holds from a position on: its
objects, each with its padding, and the objects in its containers.  The reader
takes the start of a container from the cursor behind it, which is that start if
and only if the buffer holds the padding (`objectStart_eq_iff`).  Where it does
for every container (`Walkable`), reading the file gives the records it holds
(`readAll_contents`).
-/

import Canforge.Transport.BlfContainer

namespace Canforge
namespace Transport

open Canforge.Core Lib Outcome

variable {data : List Byte} {cursor : ℕ} {h : ObjectHeader}

/-! ### One object -/

/-- The size of an object with its padding. -/
def ObjectHeader.padded (h : ObjectHeader) : ℕ := (h.objectSize + 3) / 4 * 4

theorem ObjectHeader.aligned_eq (hsize : h.objectSize + 3 < 2 ^ 32) : h.aligned = h.padded := by
  rw [aligned, padded, Nat.mod_eq_of_lt hsize]

theorem ObjectHeader.aligned_le (h : ObjectHeader) : h.aligned ≤ 2 ^ 32 := by
  rw [aligned]
  omega

theorem nextCursor_eq (hsize : h.objectSize + 3 < 2 ^ 32) :
    nextCursor data cursor h = min data.length (cursor + h.padded) := by
  rw [nextCursor, h.aligned_eq hsize]
  split_ifs <;> omega

/-- **Where a container is unpacked from.**  It is the object the header was read from if and only
if the buffer holds the object's padding. -/
theorem objectStart_eq_iff (hlen : data.length < 2 ^ 64)
    (hheader : readHeader data cursor = .ok h) :
    objectStart (nextCursor data cursor h) h = cursor ↔ cursor + h.aligned ≤ data.length := by
  have hwithin := readHeader_within hheader
  have hle := h.aligned_le
  rw [objectStart, nextCursor]
  split_ifs with hpast
  · refine ⟨fun heq => ?_, fun hfit => by omega⟩
    omega
  · refine ⟨fun _ => by omega, fun _ => ?_⟩
    have hback : cursor + h.aligned + 2 ^ 64 - h.aligned = cursor + 2 ^ 64 := by omega
    rw [hback, Nat.add_mod_right, Nat.mod_eq_of_lt (by omega)]

theorem inflateZlib_safe (data : List Byte) (expectedSize : ℕ) :
    (inflateZlib data expectedSize).Ensures fun out => out.length ≤ kMaxInflateOutput := by
  unfold inflateZlib
  refine .ite (fun _ => .error) fun _ => .ite (fun _ => .error) fun _ =>
    .ite (fun _ => .error) fun _ => .ite (fun _ => .error) fun _ => ?_
  exact (inflateRaw_safe _ _).bind fun out hout => .ite (fun _ => .error) fun _ => .ok hout

/-- **Unpacking is safe**: there is a result or an error. -/
theorem unpackFrom_safe (data : List Byte) (start : ℕ) (h : ObjectHeader) :
    (unpackFrom data start h).Ensures fun inner =>
      inner.length ≤ max data.length kMaxInflateOutput := by
  unfold unpackFrom
  refine .ite (fun _ => .error) fun _ => .ite (fun _ => .error) fun _ =>
    .ite (fun _ => .error) fun _ => .ite (fun _ => .ok ?_) fun _ => ?_
  · rw [List.length_take, List.length_drop]
    omega
  · exact (inflateZlib_safe _ _).mono fun out hout => hout.trans (le_max_right _ _)

/-- A container that has its padding is unpacked from its own object. -/
theorem unpackContainer_eq (hlen : data.length < 2 ^ 64)
    (hheader : readHeader data cursor = .ok h) (hfit : cursor + h.aligned ≤ data.length) :
    unpackContainer data (nextCursor data cursor h) h = unpackFrom data cursor h := by
  rw [unpackContainer, (objectStart_eq_iff hlen hheader).2 hfit]

/-! ### What a file holds -/

/-- The objects of CAN frames. -/
def kCanObjects : List ℕ := [kObjCanMessage, kObjCanMessage2, kObjCanFdMessage, kObjCanFdMessage64]

/-- **What a buffer holds** from a position on: the records of its objects and of the objects in
its containers, in order. -/
inductive Contents : List Byte → ℕ → List LogRecord → Prop
  | done {data : List Byte} {cursor : ℕ} (hend : data.length ≤ cursor) : Contents data cursor []
  | frame {data : List Byte} {cursor : ℕ} {h : ObjectHeader} {record : LogRecord}
      {records : List LogRecord} (hheader : readHeader data cursor = .ok h)
      (hkind : h.objectType ∈ kCanObjects)
      (hrecord : parseObject h (objectPayload data cursor h) = .ok record)
      (hrest : Contents data (cursor + h.padded) records) : Contents data cursor (record :: records)
  | other {data : List Byte} {cursor : ℕ} {h : ObjectHeader} {records : List LogRecord}
      (hheader : readHeader data cursor = .ok h) (hkind : h.objectType ∉ kCanObjects)
      (hcontainer : h.objectType ≠ kObjLogContainer)
      (hrest : Contents data (cursor + h.padded) records) : Contents data cursor records
  | container {data : List Byte} {cursor : ℕ} {h : ObjectHeader} {inner : List Byte}
      {inside records : List LogRecord} (hheader : readHeader data cursor = .ok h)
      (hkind : h.objectType = kObjLogContainer) (hinner : unpackFrom data cursor h = .ok inner)
      (hinside : Contents inner 0 inside) (hrest : Contents data (cursor + h.padded) records) :
      Contents data cursor (inside ++ records)

/-- What the reader needs of an object: a size that can be rounded up in 32 bits, and for a
container its padding, and nothing behind it when it is itself in a container. -/
structure Fits (nested : Bool) (data : List Byte) (cursor : ℕ) (h : ObjectHeader) : Prop where
  size : h.objectSize + 3 < 2 ^ 32
  padded : h.objectType = kObjLogContainer → cursor + h.padded ≤ data.length
  last : h.objectType = kObjLogContainer → nested = true → data.length ≤ cursor + h.padded

/-- Every object from a position on fits, and every object in its containers. -/
inductive Walkable : Bool → List Byte → ℕ → Prop
  | done {nested : Bool} {data : List Byte} {cursor : ℕ} (hend : data.length ≤ cursor) :
      Walkable nested data cursor
  | object {nested : Bool} {data : List Byte} {cursor : ℕ} {h : ObjectHeader}
      (hheader : readHeader data cursor = .ok h) (hfits : Fits nested data cursor h)
      (hinside : ∀ inner, h.objectType = kObjLogContainer → unpackFrom data cursor h = .ok inner →
        Walkable true inner 0)
      (hrest : Walkable nested data (cursor + h.padded)) : Walkable nested data cursor

/-- No object begins at the end of a buffer. -/
theorem Contents.eq_nil {records : List LogRecord} (hc : Contents data cursor records)
    (hend : data.length ≤ cursor) : records = [] := by
  have hpast : ∀ {h}, readHeader data cursor = .ok h → False := fun hheader => by
    have := readHeader_within hheader
    omega
  cases hc with
  | done => rfl
  | frame hheader => exact (hpast hheader).elim
  | other hheader => exact (hpast hheader).elim
  | container hheader => exact (hpast hheader).elim

theorem Walkable.object_of {nested : Bool} (hw : Walkable nested data cursor)
    (hheader : readHeader data cursor = .ok h) :
    Fits nested data cursor h ∧
      (∀ inner, h.objectType = kObjLogContainer → unpackFrom data cursor h = .ok inner →
        Walkable true inner 0) ∧ Walkable nested data (cursor + h.padded) := by
  cases hw with
  | done hend =>
    have := readHeader_within hheader
    omega
  | object hheader' hfits hinside hrest =>
    obtain rfl := Except.ok.inj (hheader.symm.trans hheader')
    exact ⟨hfits, hinside, hrest⟩

/-! ### Reading an object -/

/-- `LogEndOfFile` for an object without a frame. -/
def NoFrame (result : Result LogRecord) : Prop := returned result = none

theorem readObject_frame {record : LogRecord} (hheader : readHeader data cursor = .ok h)
    (hkind : h.objectType ∈ kCanObjects)
    (hrecord : parseObject h (objectPayload data cursor h) = .ok record) :
    readObject data cursor =
      .ok { result := .ok record, cursor := nextCursor data cursor h } := by
  have hcontainer : h.objectType ≠ kObjLogContainer := by
    rintro heq
    rw [heq] at hkind
    exact absurd hkind (by decide)
  rw [readObject, hheader]
  dsimp only
  rw [if_neg hcontainer, hrecord]
  rfl

theorem readObject_other (hheader : readHeader data cursor = .ok h)
    (hkind : h.objectType ∉ kCanObjects) (hcontainer : h.objectType ≠ kObjLogContainer) :
    ∃ result, NoFrame result ∧
      readObject data cursor = .ok { result, cursor := nextCursor data cursor h } := by
  simp only [kCanObjects, List.mem_cons, List.not_mem_nil, or_false, not_or] at hkind
  obtain ⟨hone, htwo, hfd, hfd64⟩ := hkind
  refine ⟨parseObject h (objectPayload data cursor h), ?_, ?_⟩
  · rw [NoFrame, parseObject, if_neg (by simp [hone, htwo]), if_neg (by simp [hfd, hfd64])]
    rfl
  · rw [readObject, hheader]
    dsimp only
    rw [if_neg hcontainer]
    rfl

/-- **A container that fits is read from its own object.** -/
theorem readObject_container {nested : Bool} {inner : List Byte} (hlen : data.length < 2 ^ 64)
    (hheader : readHeader data cursor = .ok h) (hkind : h.objectType = kObjLogContainer)
    (hfits : Fits nested data cursor h) (hinner : unpackFrom data cursor h = .ok inner) :
    ∃ result, NoFrame result ∧
      readObject data cursor =
        .ok { result, cursor := nextCursor data cursor h, inner := some inner } := by
  have hfit : cursor + h.aligned ≤ data.length := by
    rw [h.aligned_eq hfits.size]
    exact hfits.padded hkind
  have hunpack := unpackContainer_eq hlen hheader hfit
  refine ⟨.error ⟨.logEndOfFile, "container consumed", (0, 0)⟩, rfl, ?_⟩
  rw [readObject, hheader]
  dsimp only
  rw [if_pos hkind, hunpack, hinner]
  rfl

/-! ### The rounds of the reader -/

/-- The records the rounds of the reader return on the way from one state to another. -/
inductive Emits : BlfReader → List LogRecord → BlfReader → Prop
  | refl {r : BlfReader} : Emits r [] r
  | skip {r r₁ r₂ : BlfReader} {records : List LogRecord} (hround : r.round = .ok (none, r₁))
      (hrest : Emits r₁ records r₂) : Emits r records r₂
  | record {r r₁ r₂ : BlfReader} {record : LogRecord} {records : List LogRecord}
      (hround : r.round = .ok (some (.ok record), r₁)) (hrest : Emits r₁ records r₂) :
      Emits r (record :: records) r₂

theorem Emits.trans {r r₁ r₂ : BlfReader} {before behind : List LogRecord}
    (hbefore : Emits r before r₁) (hbehind : Emits r₁ behind r₂) :
    Emits r (before ++ behind) r₂ := by
  induction hbefore with
  | refl => exact hbehind
  | skip hround _ ih => exact .skip hround (ih hbehind)
  | record hround _ ih => exact .record hround (ih hbehind)

/-- More rounds change nothing once `next` has returned. -/
theorem next_succ {rounds : ℕ} {r : BlfReader} (hdone : r.next rounds ≠ .undefined) :
    r.next (rounds + 1) = r.next rounds := by
  induction rounds generalizing r with
  | zero => exact absurd rfl hdone
  | succ rounds ih =>
    rw [BlfReader.next] at hdone
    rw [BlfReader.next, BlfReader.next]
    cases hround : r.round with
    | error e => rfl
    | undefined => rfl
    | ok p =>
      obtain ⟨result, r₁⟩ := p
      rw [hround] at hdone
      cases result with
      | some result => rfl
      | none => exact ih hdone

theorem readAllFrom_succ {rounds calls : ℕ} {out : List LogRecord} {r : BlfReader}
    (hdone : r.readAllFrom rounds calls out ≠ .undefined) :
    r.readAllFrom (rounds + 1) calls out = r.readAllFrom rounds calls out := by
  induction calls generalizing out r with
  | zero => exact absurd rfl hdone
  | succ calls ih =>
    rw [BlfReader.readAllFrom] at hdone ⊢
    have hnext : r.next rounds ≠ .undefined := by
      intro hundefined
      rw [hundefined] at hdone
      exact hdone rfl
    rw [BlfReader.readAllFrom, next_succ hnext]
    cases hread : r.next rounds with
    | error e => rfl
    | undefined => rfl
    | ok p =>
      obtain ⟨result, r₁⟩ := p
      rw [hread] at hdone
      cases result with
      | error e => rfl
      | ok record => exact ih hdone

theorem readAllFrom_skip {rounds calls : ℕ} {out : List LogRecord} {r r₁ : BlfReader}
    {result : Result (List LogRecord)} (hround : r.round = .ok (none, r₁))
    (hread : r₁.readAllFrom rounds calls out = .ok result) :
    r.readAllFrom (rounds + 1) calls out = .ok result := by
  cases calls with
  | zero => cases hread
  | succ calls =>
    have hmore : r₁.readAllFrom (rounds + 1) (calls + 1) out =
        r₁.readAllFrom rounds (calls + 1) out :=
      readAllFrom_succ (by rw [hread]; exact nofun)
    have hnext : r.next (rounds + 1) = r₁.next rounds := by
      rw [BlfReader.next, hround]
      rfl
    have hdone : r₁.next rounds ≠ .undefined := by
      intro hundefined
      rw [BlfReader.readAllFrom, hundefined] at hread
      cases hread
    rw [← hread, ← hmore, BlfReader.readAllFrom, BlfReader.readAllFrom, hnext, next_succ hdone]

/-- **What is emitted is read.** -/
theorem Emits.readAllFrom {r r₁ r₂ : BlfReader} {records : List LogRecord} {e : Error}
    (hemits : Emits r records r₁) (hend : r₁.round = .ok (some (.error e), r₂))
    (hcode : e.code = .logEndOfFile) :
    ∃ n, ∀ rounds calls out, n ≤ rounds → n ≤ calls →
      r.readAllFrom rounds calls out = .ok (.ok (out ++ records)) := by
  induction hemits with
  | @refl r =>
    refine ⟨1, fun rounds calls out hrounds hcalls => ?_⟩
    obtain ⟨rounds, rfl⟩ := Nat.exists_eq_succ_of_ne_zero (by omega : rounds ≠ 0)
    obtain ⟨calls, rfl⟩ := Nat.exists_eq_succ_of_ne_zero (by omega : calls ≠ 0)
    rw [BlfReader.readAllFrom, BlfReader.next, hend, ok_bind]
    simp only [pure_eq, ok_bind, if_pos hcode, List.append_nil]
  | skip hround _ ih =>
    obtain ⟨n, hn⟩ := ih hend
    refine ⟨n + 1, fun rounds calls out hrounds hcalls => ?_⟩
    obtain ⟨rounds, rfl⟩ := Nat.exists_eq_succ_of_ne_zero (by omega : rounds ≠ 0)
    exact readAllFrom_skip hround (hn rounds calls out (by omega) (by omega))
  | @record r r₁ r₂ record records hround _ ih =>
    obtain ⟨n, hn⟩ := ih hend
    refine ⟨n + 1, fun rounds calls out hrounds hcalls => ?_⟩
    obtain ⟨m, rfl⟩ := Nat.exists_eq_succ_of_ne_zero (by omega : rounds ≠ 0)
    obtain ⟨calls, rfl⟩ := Nat.exists_eq_succ_of_ne_zero (by omega : calls ≠ 0)
    have hnext : r.next (m + 1) = .ok (.ok record, r₁) := by
      rw [BlfReader.next, hround]
      rfl
    rw [BlfReader.readAllFrom, hnext, ok_bind]
    dsimp only
    rw [hn (m + 1) calls (out ++ [record]) (by omega) (by omega), List.append_assoc]
    rfl

/-! ### The walk -/

variable {r : BlfReader} {records : List LogRecord}

theorem round_inner {read : ObjectRead} (hlt : r.innerPos < r.inner.length)
    (hread : readObject r.inner r.innerPos = .ok read) (hkeep : read.inner = none) :
    r.round = .ok (returned read.result, { r with innerPos := read.cursor }) := by
  rw [BlfReader.round, if_pos hlt, hread, ok_bind, hkeep]
  rfl

theorem round_unpack {read : ObjectRead} {inner : List Byte} (hlt : r.innerPos < r.inner.length)
    (hread : readObject r.inner r.innerPos = .ok read) (hinner : read.inner = some inner) :
    r.round = .ok (returned read.result, { r with inner, innerPos := 0 }) := by
  rw [BlfReader.round, if_pos hlt, hread, ok_bind, hinner]
  rfl

theorem round_file {read : ObjectRead} (hdone : r.inner.length ≤ r.innerPos)
    (hlt : r.pos < r.bytes.length) (hread : readObject r.bytes r.pos = .ok read) :
    r.round = .ok (returned read.result,
      { r with pos := read.cursor, inner := read.inner.getD [], innerPos := 0 }) := by
  rw [BlfReader.round, if_neg (Nat.not_lt.2 hdone)]
  dsimp only
  rw [if_neg (Nat.not_le.2 hlt), hread]
  rfl

/-- The reader has read its container to the end. -/
structure Emptied (r r' : BlfReader) : Prop where
  bytes : r'.bytes = r.bytes
  pos : r'.pos = r.pos
  done : r'.inner.length ≤ r'.innerPos

/-- **A container is read to its end**, by induction on what it holds. -/
theorem Contents.emits_inner (hc : Contents data cursor records)
    (hw : Walkable true data cursor) (hlen : data.length < 2 ^ 64) (hinner : r.inner = data)
    (hpos : r.innerPos = min data.length cursor) : ∃ r', Emits r records r' ∧ Emptied r r' := by
  induction hc generalizing r with
  | done hend => exact ⟨r, .refl, rfl, rfl, by rw [hinner, hpos]; omega⟩
  | @frame data cursor h record records hheader hkind hrecord hrest ih =>
    obtain ⟨hfits, -, hw⟩ := hw.object_of hheader
    have hwithin := readHeader_within hheader
    have hat : r.innerPos = cursor := by omega
    have hread := readObject_frame hheader hkind hrecord
    rw [← hinner, ← hat] at hread
    have hround := round_inner (by rw [hinner]; omega) hread rfl
    obtain ⟨r', hemits, hbytes, hpos', hdone⟩ :=
      ih hw hlen (r := { r with innerPos := nextCursor r.inner r.innerPos h }) hinner
        (by rw [hinner, hat]; exact nextCursor_eq hfits.size)
    exact ⟨r', .record hround hemits, hbytes, hpos', hdone⟩
  | @other data cursor h records hheader hkind hcontainer hrest ih =>
    obtain ⟨hfits, -, hw⟩ := hw.object_of hheader
    have hwithin := readHeader_within hheader
    have hat : r.innerPos = cursor := by omega
    obtain ⟨result, hnone, hread⟩ := readObject_other hheader hkind hcontainer
    rw [← hinner, ← hat] at hread
    have hround := round_inner (by rw [hinner]; omega) hread rfl
    rw [hnone] at hround
    obtain ⟨r', hemits, hbytes, hpos', hdone⟩ :=
      ih hw hlen (r := { r with innerPos := nextCursor r.inner r.innerPos h }) hinner
        (by rw [hinner, hat]; exact nextCursor_eq hfits.size)
    exact ⟨r', .skip hround hemits, hbytes, hpos', hdone⟩
  | @container data cursor h inner inside records hheader hkind hunpack hinside hrest ih _ =>
    obtain ⟨hfits, hwinside, -⟩ := hw.object_of hheader
    have hwithin := readHeader_within hheader
    have hat : r.innerPos = cursor := by omega
    -- nothing is left behind the container, so nothing is lost when its data is replaced
    have hrecords : records = [] := hrest.eq_nil (hfits.last hkind rfl)
    have hshort := (unpackFrom_safe data cursor h)
    rw [hunpack] at hshort
    have hshort := hshort.value
    obtain ⟨result, hnone, hread⟩ := readObject_container hlen hheader hkind hfits hunpack
    rw [← hinner, ← hat] at hread
    have hround := round_unpack (by rw [hinner]; omega) hread rfl
    rw [hnone] at hround
    have hlimit : kMaxInflateOutput < 2 ^ 64 := by decide
    obtain ⟨r', hemits, hbytes, hpos', hdone⟩ :=
      ih (hwinside inner hkind hunpack) (by omega) (r := { r with inner, innerPos := 0 }) rfl
        (Nat.min_zero _).symm
    rw [hrecords, List.append_nil]
    exact ⟨r', .skip hround hemits, hbytes, hpos', hdone⟩

/-- The reader is at the end of its file. -/
structure AtEnd (r : BlfReader) : Prop where
  pos : r.bytes.length ≤ r.pos
  done : r.inner.length ≤ r.innerPos

theorem AtEnd.round (hend : AtEnd r) :
    r.round = .ok (some (.error ⟨.logEndOfFile, "end of BLF log", (0, 0)⟩),
      { r with inner := [], innerPos := 0 }) := by
  rw [BlfReader.round, if_neg (Nat.not_lt.2 hend.done)]
  dsimp only
  rw [if_pos hend.pos]
  rfl

/-- **A file is read to its end**, by induction on what it holds. -/
theorem Contents.emits_file (hc : Contents data cursor records) (hw : Walkable false data cursor)
    (hlen : data.length < 2 ^ 64) (hbytes : r.bytes = data)
    (hpos : r.pos = min data.length cursor) (hdone : r.inner.length ≤ r.innerPos) :
    ∃ r', Emits r records r' ∧ AtEnd r' := by
  induction hc generalizing r with
  | done hend => exact ⟨r, .refl, by rw [hbytes, hpos]; omega, hdone⟩
  | @frame data cursor h record records hheader hkind hrecord hrest ih =>
    obtain ⟨hfits, -, hw⟩ := hw.object_of hheader
    have hwithin := readHeader_within hheader
    have hat : r.pos = cursor := by omega
    have hread := readObject_frame hheader hkind hrecord
    rw [← hbytes, ← hat] at hread
    have hround := round_file hdone (by rw [hbytes]; omega) hread
    have hnext : nextCursor r.bytes r.pos h = min data.length (cursor + h.padded) := by
      rw [hbytes, hat]
      exact nextCursor_eq hfits.size
    obtain ⟨r', hemits, hend⟩ := ih hw hlen
      (r := { r with pos := nextCursor r.bytes r.pos h, inner := [], innerPos := 0 }) hbytes hnext
      le_rfl
    exact ⟨r', .record hround hemits, hend⟩
  | @other data cursor h records hheader hkind hcontainer hrest ih =>
    obtain ⟨hfits, -, hw⟩ := hw.object_of hheader
    have hwithin := readHeader_within hheader
    have hat : r.pos = cursor := by omega
    obtain ⟨result, hnone, hread⟩ := readObject_other hheader hkind hcontainer
    rw [← hbytes, ← hat] at hread
    have hround := round_file hdone (by rw [hbytes]; omega) hread
    rw [hnone] at hround
    have hnext : nextCursor r.bytes r.pos h = min data.length (cursor + h.padded) := by
      rw [hbytes, hat]
      exact nextCursor_eq hfits.size
    obtain ⟨r', hemits, hend⟩ := ih hw hlen
      (r := { r with pos := nextCursor r.bytes r.pos h, inner := [], innerPos := 0 }) hbytes hnext
      le_rfl
    exact ⟨r', .skip hround hemits, hend⟩
  | @container data cursor h inner inside records hheader hkind hunpack hinside hrest _ ih =>
    obtain ⟨hfits, hwinside, hw⟩ := hw.object_of hheader
    have hwithin := readHeader_within hheader
    have hat : r.pos = cursor := by omega
    have hshort := unpackFrom_safe data cursor h
    rw [hunpack] at hshort
    have hshort := hshort.value
    have hlimit : kMaxInflateOutput < 2 ^ 64 := by decide
    obtain ⟨result, hnone, hread⟩ := readObject_container hlen hheader hkind hfits hunpack
    rw [← hbytes, ← hat] at hread
    have hround := round_file hdone (by rw [hbytes]; omega) hread
    rw [hnone] at hround
    have hnext : nextCursor r.bytes r.pos h = min data.length (cursor + h.padded) := by
      rw [hbytes, hat]
      exact nextCursor_eq hfits.size
    obtain ⟨r₁, hemits₁, hemptied⟩ := hinside.emits_inner (hwinside inner hkind hunpack) (by omega)
      (r := { r with pos := nextCursor r.bytes r.pos h, inner, innerPos := 0 }) rfl
      (Nat.min_zero _).symm
    obtain ⟨r', hemits, hend⟩ := ih hw hlen (r := r₁) (hemptied.bytes.trans hbytes)
      (hemptied.pos.trans hnext) hemptied.done
    exact ⟨r', .skip hround (hemits₁.trans hemits), hend⟩

/-- **Reading a file gives what it holds.**  The start of a container is the object's own if and
only if the buffer holds its padding; where every object fits, the records of a whole file come
back in order. -/
theorem blf_container_walk (bytes : List Byte) (hlen : bytes.length < 2 ^ 64) :
    (∀ (cursor : ℕ) (h : ObjectHeader), readHeader bytes cursor = .ok h →
      h.objectType = kObjLogContainer →
        (objectStart (nextCursor bytes cursor h) h = cursor ↔ cursor + h.aligned ≤ bytes.length) ∧
        (cursor + h.aligned ≤ bytes.length →
          unpackContainer bytes (nextCursor bytes cursor h) h = unpackFrom bytes cursor h)) ∧
      ∀ (r : BlfReader) (records : List LogRecord), BlfReader.openBytes bytes = .ok r →
        Contents bytes r.pos records → Walkable false bytes r.pos →
          ∃ n, ∀ fuel, n ≤ fuel → r.readAll fuel = .ok (.ok records) := by
  refine ⟨fun cursor h hheader _ =>
    ⟨objectStart_eq_iff hlen hheader, unpackContainer_eq hlen hheader⟩, ?_⟩
  intro r records hopen hc hw
  have hr : r.bytes = bytes ∧ r.pos ≤ bytes.length ∧ r.inner = [] := by
    unfold BlfReader.openBytes at hopen
    dsimp only at hopen
    split_ifs at hopen with hshort hsign hheader
    cases hopen
    exact ⟨rfl, by dsimp only; omega, rfl⟩
  obtain ⟨hbytes, hpos, hinner⟩ := hr
  obtain ⟨r', hemits, hend⟩ := hc.emits_file hw hlen hbytes (by omega) (by simp [hinner])
  obtain ⟨n, hn⟩ := hemits.readAllFrom hend.round rfl
  exact ⟨n, fun fuel hfuel => hn fuel fuel [] hfuel hfuel⟩

/-! ### Two files -/

/-- A number in so many bytes, little end first. -/
def littleEndian (bytes value : ℕ) : List Byte :=
  (List.range bytes).map fun i => BitVec.ofNat 8 (value / 256 ^ i)

/-- A CAN_MESSAGE object with the identifier `0x123` and two bytes, and `extra` bytes behind. -/
def canObject (extra : ℕ) : List Byte :=
  ascii "LOBJ" ++ littleEndian 2 32 ++ littleEndian 2 1 ++ littleEndian 4 (48 + extra) ++
    littleEndian 4 1 ++ littleEndian 4 2 ++ littleEndian 4 0 ++ littleEndian 8 1000 ++
    littleEndian 2 1 ++ [0, 2] ++ littleEndian 4 0x123 ++ [0xDE, 0xAD, 0, 0, 0, 0, 0, 0] ++
    List.replicate extra 0

/-- A stored container without its padding. -/
def storedContainer (inner : List Byte) : List Byte :=
  ascii "LOBJ" ++ littleEndian 2 16 ++ littleEndian 2 1 ++ littleEndian 4 (32 + inner.length) ++
    littleEndian 4 10 ++ List.replicate 8 0 ++ littleEndian 4 inner.length ++ littleEndian 4 0 ++
    inner

/-- A file with a header of 144 bytes. -/
def blfFile (objects : List Byte) : List Byte :=
  ascii "LOGG" ++ littleEndian 4 144 ++ List.replicate 136 0 ++ objects

/-- The record of `canObject`. -/
def canRecord : LogRecord where
  frame := ⟨1000, ⟨0x123, CanId.inRange_standard⟩, 2, FrameFlags.none, BasicFrame.store 64 [0xDE, 0xAD],
    BasicFrame.store_length _ _⟩
  channel := ascii "can1"

/-- The header of `canObject` at a position. -/
def canHeader (extra cursor : ℕ) : ObjectHeader where
  headerSize := 32
  headerVersion := 1
  objectSize := 48 + extra
  objectType := kObjCanMessage
  flags := 2
  timestamp := 1000
  payloadOffset := cursor + 32

/-- The header of `storedContainer (canObject 1)` at a position. -/
def containerHeader (cursor : ℕ) : ObjectHeader where
  headerSize := 16
  headerVersion := 1
  objectSize := 81
  objectType := kObjLogContainer
  payloadOffset := cursor + 16

theorem contents_canObject : Contents (canObject 1) 0 [canRecord] :=
  .frame (h := canHeader 1 0) (by decide +kernel) (by decide +kernel) (by decide +kernel)
    (.done (by decide +kernel))

theorem walkable_canObject : Walkable true (canObject 1) 0 :=
  .object (h := canHeader 1 0) (by decide +kernel)
    ⟨by decide, fun hkind => absurd hkind (by decide), fun hkind => absurd hkind (by decide)⟩
    (fun _ hkind => absurd hkind (by decide)) (.done (by decide +kernel))

/-- An object, a padded container and an object without its padding. -/
def threeObjects : List Byte :=
  blfFile (canObject 0 ++ storedContainer (canObject 1) ++ List.replicate 3 0 ++ canObject 1)

theorem blf_container_walk_three :
    ∃ n, ∀ fuel, n ≤ fuel → BlfReader.readAll fuel { bytes := threeObjects, pos := 144 } =
      .ok (.ok [canRecord, canRecord, canRecord]) := by
  have hunpack : unpackFrom threeObjects 192 (containerHeader 192) = .ok (canObject 1) := by
    decide +kernel
  have hlast : readHeader threeObjects 276 = .ok (canHeader 1 276) := by decide +kernel
  have hcontainer : readHeader threeObjects 192 = .ok (containerHeader 192) := by decide +kernel
  have hfirst : readHeader threeObjects 144 = .ok (canHeader 0 144) := by decide +kernel
  have hc₃ : Contents threeObjects 276 [canRecord] :=
    .frame hlast (by decide) (by decide +kernel) (.done (by decide +kernel))
  have hc₂ : Contents threeObjects 192 ([canRecord] ++ [canRecord]) :=
    .container hcontainer rfl hunpack contents_canObject hc₃
  have hc : Contents threeObjects 144 [canRecord, canRecord, canRecord] :=
    .frame hfirst (by decide) (by decide +kernel) hc₂
  have hw : Walkable false threeObjects 144 := by
    refine .object hfirst ⟨by decide, fun hkind => absurd hkind (by decide), nofun⟩
      (fun _ hkind => absurd hkind (by decide)) ?_
    refine .object hcontainer ⟨by decide, fun _ => by decide +kernel, nofun⟩
      (fun inner _ hinner => ?_) ?_
    · obtain rfl : canObject 1 = inner := Outcome.ok.inj (hunpack.symm.trans hinner)
      exact walkable_canObject
    · exact .object hlast ⟨by decide, fun hkind => absurd hkind (by decide), nofun⟩
        (fun _ hkind => absurd hkind (by decide)) (.done (by decide +kernel))
  exact (blf_container_walk threeObjects (by decide +kernel)).2
    { bytes := threeObjects, pos := 144 } _ (by decide +kernel) hc hw

/-- A file that ends with a container that lacks its padding. -/
def unpaddedContainer : List Byte := blfFile (storedContainer (canObject 1))

/-- **A container at the end of a file is misread without its padding**: its fields are read three
bytes too early. -/
theorem unpadded_container_lost :
    BlfReader.openBytes unpaddedContainer = .ok { bytes := unpaddedContainer, pos := 144 } ∧
      readHeader unpaddedContainer 144 = .ok (containerHeader 144) ∧
      objectStart (nextCursor unpaddedContainer 144 (containerHeader 144)) (containerHeader 144) =
        141 ∧
      Contents unpaddedContainer 144 [canRecord] ∧
      ∀ fuel, BlfReader.readAll (fuel + 1) { bytes := unpaddedContainer, pos := 144 } =
        .ok (.error (malformed "log container claims an implausible uncompressed size"
          822083584)) := by
  have hcontainer : readHeader unpaddedContainer 144 = .ok (containerHeader 144) := by
    decide +kernel
  have hunpack : unpackFrom unpaddedContainer 144 (containerHeader 144) = .ok (canObject 1) := by
    decide +kernel
  have hc : Contents unpaddedContainer 144 ([canRecord] ++ []) :=
    .container hcontainer rfl hunpack contents_canObject (.done (by decide +kernel))
  refine ⟨by decide +kernel, hcontainer, by decide +kernel, hc, fun fuel => ?_⟩
  have hround : BlfReader.round { bytes := unpaddedContainer, pos := 144 } =
      .ok (some (.error (malformed "log container claims an implausible uncompressed size"
        822083584)), { bytes := unpaddedContainer, pos := 225 }) := by
    decide +kernel
  rw [BlfReader.readAll, BlfReader.readAllFrom, BlfReader.next, hround]
  rfl

end Transport
end Canforge
