/-
# `EspIot.Network.BinaryUpdates` — the updates of network/protocol/binary.h

Five routines copy the data of a packet into the memory of a parameter: a `T`, a block of
`size` bytes, an element of an array, a string, some strings of a list.  Each checks the
size the header gives against its destination first.

    update_parameter_value         header.size == sizeof(T), == size
    update_parameter_value_array   header.size == sizeof(T) + 1, index < N
    update_string_value            header.size <= max_size
    update_string_list_value       header.size >= 2, dst_index < max_count

The destination is the memory the routine is given, no more, and the data is as long as
the header says: a copy that leaves either is a `MemFault`.
-/
import EspIot.Lib.Strings
import EspIot.Network.Protocol

namespace EspIot

open Lib

def Response.isOk : Response → Bool
  | .code c => c == .ok
  | _ => true

/-- A packet whose data is as long as its header says. -/
structure SizedPacket extends Packet where
  sized : data.length = header.size.toNat

/-- The answer of an update, with the memory it leaves. -/
abbrev Updated (α : Type*) := Response × List α

/-! ## The routines -/

/-- `update_parameter_value` of a `T` with `sizeof(T) = size`; the second copy is the aligned one
for the debug output. -/
def updateParameterValue (size : ℕ) (parameter : List UInt8) (header : PacketHeader)
    (data : List UInt8) : Except MemFault (Updated UInt8) :=
  if header.size.toNat ≠ size then .ok (.code .badRequest, parameter)
  else do
    let parameter ← memcpy parameter 0 data 0 size
    let _debugData ← memcpy (List.replicate size 0) 0 data 0 size
    return (.code .ok, parameter)

/-- `update_parameter_value` of `size` bytes behind a `void *` -/
def updateParameterValuePointer (size : UInt8) (pointer : List UInt8) (header : PacketHeader)
    (data : List UInt8) : Except MemFault (Updated UInt8) :=
  if header.size.toNat ≠ size.toNat then .ok (.code .badRequest, pointer)
  else do
    let pointer ← memcpy pointer 0 data 0 size.toNat
    return (.code .ok, pointer)

/-- A `uint8_t` at the front of the data. -/
def readIndex (data : List UInt8) : Except MemFault UInt8 :=
  (memcpy [0] 0 data 0 1).map fun bytes => bytes.headD 0

/-- `update_parameter_value_array` of `n` elements of `size` bytes each -/
def updateParameterValueArray (size : ℕ) (n : UInt8) (array : List UInt8) (header : PacketHeader)
    (data : List UInt8) : Except MemFault (Updated UInt8) :=
  if header.size.toNat ≠ size + 1 then .ok (.code .badRequest, array)
  else do
    let index ← readIndex data
    if index ≥ n then return (.code .badRequest, array)
    else do
      let array ← memcpy array (index.toNat * size) data 1 size
      return (.code .ok, array)

def updateStringValue (maxSize : UInt8) (str : List UInt8) (header : PacketHeader)
    (data : List UInt8) : Except MemFault (Updated UInt8) :=
  if header.size.toNat > maxSize.toNat then .ok (.code .badRequest, str)
  else do
    let str ← memcpy str 0 data 0 header.size.toNat
    let str ← if header.size.toNat < maxSize.toNat then memcpy str header.size.toNat [0] 0 1
      else .ok str
    return (.code .ok, str)

/-- The loop of `update_string_list_value`; `input` is the pointer, as an offset of the data. -/
def updateStrings (strSize maxCount : UInt8) (size : ℕ) (data : List UInt8)
    (destination : List (List UInt8)) (dstIndex : UInt8) (offset input : ℕ) :
    Except MemFault (List (List UInt8)) :=
  if offset < size then
    if dstIndex ≥ maxCount then .ok destination
    else do
      let length ← strnlen data input (size - offset)
      let entry := destination.getD dstIndex.toNat []
      -- the length goes through a `uint8_t` here, and here only
      let entry ← memcpy entry 0 data input (min (UInt8.ofNat length).toNat strSize.toNat)
      let entry ← if length < strSize.toNat then memcpy entry length [0] 0 1 else .ok entry
      updateStrings strSize maxCount size data (destination.set dstIndex.toNat entry)
        (dstIndex + 1) (offset + (length + 1)) (input + (length + 1))
  else .ok destination
termination_by size - offset
decreasing_by omega

/-- `update_string_list_value` of `maxCount` strings of `strSize` characters -/
def updateStringListValue (strSize maxCount : UInt8) (destination : List (List UInt8))
    (header : PacketHeader) (data : List UInt8) : Except MemFault (Updated (List UInt8)) :=
  if header.size.toNat < 2 then .ok (.code .badRequest, destination)
  else do
    let dstIndex ← readIndex data
    if dstIndex ≥ maxCount then return (.code .badRequest, destination)
    else do
      let destination ←
        updateStrings strSize maxCount header.size.toNat data destination dstIndex 1 1
      return (.code .ok, destination)

/-! ## Copies of whole packets -/

def SizedPacket.index (p : SizedPacket) : UInt8 := p.data.headD 0

theorem SizedPacket.readIndex {p : SizedPacket} (h : 1 ≤ p.header.size.toNat) :
    readIndex p.data = .ok p.index := by
  rw [EspIot.readIndex, SizedPacket.index]
  cases hdata : p.data with
  | nil =>
      have hlen := p.sized
      rw [hdata] at hlen
      simp at hlen
      omega
  | cons byte rest => rfl

/-! ## Atomic, and in bounds -/

/-- An update has read and written inside its bounds: it has an answer, and the memory is as long
as before.  It has changed nothing that is not addressed, and nothing at all unless it answers
that it is done. -/
def Atomic {α : Type*} (memory : List α) (Addressed : ℕ → Prop)
    (result : Except MemFault (Updated α)) : Prop :=
  ∃ response memory', result = .ok (response, memory') ∧ memory'.length = memory.length ∧
    (∀ i, ¬ Addressed i → memory'[i]? = memory[i]?) ∧ (response.isOk = false → memory' = memory)

theorem Atomic.refused {α : Type*} (memory : List α) (Addressed : ℕ → Prop) (code : ResponseCode) :
    Atomic memory Addressed (.ok (.code code, memory)) :=
  ⟨_, _, rfl, rfl, fun _ _ => rfl, fun _ => rfl⟩

theorem Atomic.copied {buf src : List UInt8} {off srcOff n : ℕ} {Addressed : ℕ → Prop}
    (hread : srcOff + n ≤ src.length) (hwrite : off + n ≤ buf.length)
    (haddressed : ∀ i, off ≤ i → i < off + n → Addressed i) :
    Atomic buf Addressed
      (.ok (.code .ok, writeAt buf off ((src.drop srcOff).take n))) := by
  have hlen := copied_length hread
  refine ⟨_, _, rfl, writeAt_length (by omega), ?_, fun h => by cases h⟩
  intro i hi
  rw [writeAt_getElem? (by omega), if_neg]
  rintro ⟨hlo, hhi⟩
  exact hi (haddressed i hlo (by omega))

variable (p : SizedPacket)

theorem updateParameterValue_atomic {size : ℕ} (parameter : Vector UInt8 size) :
    Atomic parameter.toList (fun _ => True)
      (updateParameterValue size parameter.toList p.header p.data) := by
  rw [updateParameterValue]
  split
  · exact Atomic.refused ..
  · rename_i hsize
    have hread : 0 + size ≤ p.data.length := by
      rw [p.sized]
      omega
    have hwrite : 0 + size ≤ parameter.toList.length := by
      rw [Vector.length_toList]
      omega
    have hdebug : 0 + size ≤ (List.replicate size (0 : UInt8)).length := by
      rw [List.length_replicate]
      omega
    rw [memcpy_inside hread hwrite, memcpy_inside hread hdebug]
    exact Atomic.copied hread hwrite fun _ _ _ => trivial

theorem updateParameterValuePointer_atomic {size : UInt8} (pointer : Vector UInt8 size.toNat) :
    Atomic pointer.toList (fun _ => True)
      (updateParameterValuePointer size pointer.toList p.header p.data) := by
  rw [updateParameterValuePointer]
  split
  · exact Atomic.refused ..
  · rename_i hsize
    have hread : 0 + size.toNat ≤ p.data.length := by
      rw [p.sized]
      omega
    have hwrite : 0 + size.toNat ≤ pointer.toList.length := by
      rw [Vector.length_toList]
      omega
    rw [memcpy_inside hread hwrite]
    exact Atomic.copied hread hwrite fun _ _ _ => trivial

theorem updateParameterValueArray_atomic {size : ℕ} {n : UInt8}
    (array : Vector UInt8 (n.toNat * size)) :
    Atomic array.toList (fun i => p.index.toNat * size ≤ i ∧ i < (p.index.toNat + 1) * size)
      (updateParameterValueArray size n array.toList p.header p.data) := by
  rw [updateParameterValueArray]
  split
  · exact Atomic.refused ..
  · rename_i hsize
    rw [p.readIndex (by omega)]
    by_cases hindex : p.index ≥ n
    · simp only [bind, Except.bind, if_pos hindex]
      exact Atomic.refused ..
    · have hlt : p.index.toNat < n.toNat := by simpa [UInt8.lt_iff_toNat_lt] using hindex
      have hread : 1 + size ≤ p.data.length := by
        rw [p.sized]
        omega
      have hwrite : p.index.toNat * size + size ≤ array.toList.length := by
        rw [Vector.length_toList, ← Nat.succ_mul]
        exact Nat.mul_le_mul_right size hlt
      simp only [bind, Except.bind, if_neg hindex, memcpy_inside hread hwrite]
      refine Atomic.copied hread hwrite fun i hlo hhi => ⟨hlo, ?_⟩
      rwa [Nat.succ_mul]

theorem updateStringValue_atomic {maxSize : UInt8} (str : Vector UInt8 maxSize.toNat) :
    Atomic str.toList (fun _ => True)
      (updateStringValue maxSize str.toList p.header p.data) := by
  rw [updateStringValue]
  split
  · exact Atomic.refused ..
  · rename_i hsize
    have hread : 0 + p.header.size.toNat ≤ p.data.length := by
      rw [p.sized]
      omega
    have hwrite : 0 + p.header.size.toNat ≤ str.toList.length := by
      rw [Vector.length_toList]
      omega
    have hlen : (writeAt str.toList 0 ((p.data.drop 0).take p.header.size.toNat)).length =
        maxSize.toNat := by
      rw [writeAt_length (by rw [copied_length hread]; omega), Vector.length_toList]
    rw [memcpy_inside hread hwrite]
    simp only [bind, Except.bind]
    split
    · rename_i hshort
      rw [memcpy_inside (Nat.le_refl 1) (by omega)]
      refine ⟨_, _, rfl, ?_, fun i hi => absurd trivial hi, fun h => by cases h⟩
      rw [writeAt_length, hlen, Vector.length_toList]
      show p.header.size.toNat + 1 ≤ _
      omega
    · exact ⟨_, _, rfl, by rw [hlen, Vector.length_toList], fun i hi => absurd trivial hi,
        fun h => by cases h⟩

/-! ## The strings of a list -/

/-- What the loop makes of the entry that a string goes to. -/
def storeString (strSize : UInt8) (s entry : List UInt8) : List UInt8 :=
  let entry := writeAt entry 0 (s.take (min (UInt8.ofNat s.length).toNat strSize.toNat))
  if s.length < strSize.toNat then writeAt entry s.length [0] else entry

/-- The string that goes to entry `j`, when the first goes to entry `i`. -/
def stringFor (strings : List (List UInt8)) (i j : ℕ) : Option (List UInt8) :=
  if i ≤ j then strings[j - i]? else none

/-- Entry `j` after the strings have been stored, the first at `i`. -/
def storedAt (strSize : UInt8) (strings : List (List UInt8)) (i j : ℕ) (entry : List UInt8) :
    List UInt8 :=
  match stringFor strings i j with
  | some s => storeString strSize s entry
  | none => entry

theorem stringFor_of_lt {i j : ℕ} (strings : List (List UInt8)) (h : j < i) :
    stringFor strings i j = none := if_neg (by omega)

theorem stringFor_cons {i j : ℕ} (s : List UInt8) (strings : List (List UInt8)) (h : j ≠ i) :
    stringFor (s :: strings) i j = stringFor strings (i + 1) j := by
  rw [stringFor, stringFor]
  by_cases hlt : i + 1 ≤ j
  · rw [if_pos (by omega), if_pos hlt, show j - i = j - (i + 1) + 1 by omega,
      List.getElem?_cons_succ]
  · rw [if_neg (by omega), if_neg hlt]

theorem storeString_length {strSize : UInt8} {s entry : List UInt8}
    (h : entry.length = strSize.toNat) :
    (storeString strSize s entry).length = strSize.toNat := by
  have hcopied : (writeAt entry 0
      (s.take (min (UInt8.ofNat s.length).toNat strSize.toNat))).length = strSize.toNat := by
    rw [writeAt_length, h]
    rw [List.length_take]
    omega
  rw [storeString]
  split
  · rename_i hnul
    rw [writeAt_length, hcopied]
    rw [hcopied]
    exact hnul
  · exact hcopied

theorem storedAt_length {strSize : UInt8} {entry : List UInt8} (strings : List (List UInt8))
    (i j : ℕ) (h : entry.length = strSize.toNat) :
    (storedAt strSize strings i j entry).length = strSize.toNat := by
  rw [storedAt]
  split
  · exact storeString_length h
  · exact h

theorem mapIdx_storedAt_cons (strSize : UInt8) (s : List UInt8) (strings : List (List UInt8))
    {destination : List (List UInt8)} {i : ℕ} {entry : List UInt8}
    (h : destination[i]? = some entry) :
    (destination.set i (storeString strSize s entry)).mapIdx
        (storedAt strSize strings (i + 1)) =
      destination.mapIdx (storedAt strSize (s :: strings) i) := by
  obtain ⟨hi, rfl⟩ := List.getElem?_eq_some_iff.mp h
  refine List.ext_getElem (by simp) ?_
  intro j hj _
  rw [List.getElem_mapIdx, List.getElem_mapIdx]
  by_cases hji : j = i
  · subst hji
    rw [List.getElem_set_self, storedAt, stringFor_of_lt _ (Nat.lt_succ_self j), storedAt,
      stringFor, if_pos (Nat.le_refl j), Nat.sub_self, List.getElem?_cons_zero]
  · rw [List.getElem_set_ne (Ne.symm hji), storedAt, storedAt, stringFor_cons s strings hji]

theorem mapIdx_storedAt_of_none (strSize : UInt8) {strings : List (List UInt8)}
    {destination : List (List UInt8)} {i : ℕ}
    (h : ∀ j, j < destination.length → stringFor strings i j = none) :
    destination.mapIdx (storedAt strSize strings i) = destination := by
  refine List.ext_getElem (by simp) ?_
  intro j hj hj'
  rw [List.getElem_mapIdx, storedAt, h j hj']

section
variable {strSize maxCount : UInt8} {data : List UInt8} {destination : List (List UInt8)}

theorem updateStrings_step {dstIndex : UInt8} {offset : ℕ} {entry : List UInt8}
    (hoffset : offset < data.length) (hindex : dstIndex < maxCount)
    (hentry : destination[dstIndex.toNat]? = some entry) (hlen : entry.length = strSize.toNat) :
    updateStrings strSize maxCount data.length data destination dstIndex offset offset =
      updateStrings strSize maxCount data.length data
        (destination.set dstIndex.toNat
          (storeString strSize (untilNul (data.drop offset)) entry))
        (dstIndex + 1) (offset + ((untilNul (data.drop offset)).length + 1))
        (offset + ((untilNul (data.drop offset)).length + 1)) := by
  have hshort := untilNul_length_le (data.drop offset)
  rw [List.length_drop] at hshort
  have hget : destination.getD dstIndex.toNat [] = entry := by
    rw [List.getD_eq_getElem?_getD, hentry, Option.getD_some]
  generalize hs : untilNul (data.drop offset) = s at *
  generalize hn : min (UInt8.ofNat s.length).toNat strSize.toNat = n
  have hns : n ≤ s.length := by
    rw [← hn, UInt8.toNat_ofNat']
    have := Nat.mod_le s.length 256
    omega
  have hcopy : memcpy entry 0 data offset n = .ok (writeAt entry 0 (s.take n)) := by
    rw [memcpy_inside (by omega) (by omega), ← hs, take_untilNul _ (hs ▸ hns)]
  have hlen' : (writeAt entry 0 (s.take n)).length = strSize.toNat := by
    rw [writeAt_length, hlen]
    rw [List.length_take]
    omega
  rw [updateStrings, if_pos hoffset, if_neg (by simpa using hindex),
    strnlen_rest (Nat.le_of_lt hoffset), hs]
  simp only [bind, Except.bind, hget, hn, hcopy]
  rw [storeString, hn]
  split
  · rename_i hnul
    rw [memcpy_inside (Nat.le_refl 1) (by omega)]
    rfl
  · rfl

theorem updateStrings_ok (hcount : destination.length = maxCount.toNat)
    (hsize : ∀ entry ∈ destination, entry.length = strSize.toNat) (dstIndex : UInt8)
    (offset : ℕ) :
    updateStrings strSize maxCount data.length data destination dstIndex offset offset =
      .ok (destination.mapIdx
        (storedAt strSize (splitNul (data.drop offset)) dstIndex.toNat)) := by
  induction hrest : data.length - offset using Nat.strong_induction_on
    generalizing destination dstIndex offset with
  | _ rest ih =>
      by_cases hoffset : offset < data.length
      · by_cases hindex : dstIndex < maxCount
        · have hlt : dstIndex.toNat < destination.length := by
            rw [hcount]
            exact hindex
          have hentry := List.getElem?_eq_getElem hlt
          have hlen := hsize _ (List.getElem_mem hlt)
          have hnext : (dstIndex + 1).toNat = dstIndex.toNat + 1 := by
            have := maxCount.toNat_lt
            rw [UInt8.toNat_add, show (1 : UInt8).toNat = 1 from rfl]
            omega
          have hdata : data.drop offset ≠ [] := by
            intro hnil
            have := congrArg List.length hnil
            rw [List.length_drop, List.length_nil] at this
            omega
          have hsizes : ∀ entry ∈ destination.set dstIndex.toNat
              (storeString strSize (untilNul (data.drop offset)) destination[dstIndex.toNat]),
              entry.length = strSize.toNat := by
            intro entry hmem
            rcases List.mem_or_eq_of_mem_set hmem with hold | rfl
            · exact hsize entry hold
            · exact storeString_length hlen
          rw [updateStrings_step hoffset hindex hentry hlen,
            ih _ (by omega) (by rw [List.length_set, hcount]) hsizes _ _ rfl, hnext,
            mapIdx_storedAt_cons strSize _ _ hentry, splitNul_eq_cons hdata, List.drop_drop]
        · -- no entry is left
          rw [updateStrings, if_pos hoffset, if_pos (by simpa using hindex),
            mapIdx_storedAt_of_none]
          intro j hj
          refine stringFor_of_lt _ ?_
          have : maxCount.toNat ≤ dstIndex.toNat := by simpa [UInt8.le_iff_toNat_le] using hindex
          omega
      · -- no data is left
        rw [updateStrings, if_neg hoffset, List.drop_of_length_le (by omega),
          mapIdx_storedAt_of_none]
        intro j hj
        rw [stringFor]
        split <;> rfl

end

def SizedPacket.strings (p : SizedPacket) : List (List UInt8) := splitNul (p.data.drop 1)

/-- The entries of a `char destination[max_count][StrSize]` -/
def entries {strSize maxCount : ℕ} (destination : Vector (Vector UInt8 strSize) maxCount) :
    List (List UInt8) :=
  destination.toList.map Vector.toList

theorem entries_length {strSize maxCount : ℕ}
    (destination : Vector (Vector UInt8 strSize) maxCount) :
    (entries destination).length = maxCount := by
  rw [entries, List.length_map, Vector.length_toList]

theorem entry_length {strSize maxCount : ℕ} (destination : Vector (Vector UInt8 strSize) maxCount) :
    ∀ entry ∈ entries destination, entry.length = strSize := by
  intro entry hmem
  obtain ⟨v, -, rfl⟩ := List.mem_map.mp hmem
  exact Vector.length_toList

section
variable {strSize maxCount : UInt8}
  (destination : Vector (Vector UInt8 strSize.toNat) maxCount.toNat)

theorem updateStringListValue_eq :
    updateStringListValue strSize maxCount (entries destination) p.header p.data =
      if p.header.size.toNat < 2 ∨ maxCount ≤ p.index then
        .ok (.code .badRequest, entries destination)
      else
        .ok (.code .ok, (entries destination).mapIdx
          (storedAt strSize p.strings p.index.toNat)) := by
  rw [updateStringListValue]
  by_cases hsize : p.header.size.toNat < 2
  · rw [if_pos hsize, if_pos (.inl hsize)]
  · rw [if_neg hsize, p.readIndex (by omega)]
    simp only [bind, Except.bind]
    by_cases hindex : maxCount ≤ p.index
    · rw [if_pos hindex, if_pos (.inr hindex)]
      rfl
    · rw [if_neg hindex, if_neg (not_or.mpr ⟨hsize, hindex⟩), ← p.sized,
        updateStrings_ok (entries_length destination) (entry_length destination)]
      rfl

theorem updateStringListValue_atomic :
    Atomic (entries destination)
      (fun j => p.index.toNat ≤ j ∧ j < p.index.toNat + p.strings.length)
      (updateStringListValue strSize maxCount (entries destination) p.header p.data) ∧
    ∀ response entries',
      updateStringListValue strSize maxCount (entries destination) p.header p.data =
        .ok (response, entries') → ∀ entry ∈ entries', entry.length = strSize.toNat := by
  rw [updateStringListValue_eq]
  split
  · refine ⟨Atomic.refused .., ?_⟩
    intro response entries' h
    cases h
    exact entry_length destination
  · refine ⟨⟨_, _, rfl, List.length_mapIdx, fun j hj => ?_, fun h => by cases h⟩, ?_⟩
    · have hnone : stringFor p.strings p.index.toNat j = none := by
        rw [stringFor]
        split
        · rename_i hle
          refine List.getElem?_eq_none ?_
          by_contra hlt
          exact hj ⟨hle, by omega⟩
        · rfl
      rw [List.getElem?_mapIdx]
      cases (entries destination)[j]? with
      | none => rfl
      | some entry =>
          rw [Option.map_some, storedAt, hnone]
    · intro response entries' h entry hmem
      cases h
      obtain ⟨j, hj, rfl⟩ := List.mem_mapIdx.mp hmem
      exact storedAt_length _ _ _ (entry_length destination _ (List.getElem_mem hj))

end

/-- **Every update stays in its bounds and is atomic**: it reads only the data the header gives,
writes only the value, the bytes, the element with the index, the characters or the entries from
the index on, and leaves all as it was unless it answers that it is done. -/
theorem updates_atomic :
    (∀ {size : ℕ} (parameter : Vector UInt8 size), Atomic parameter.toList (fun _ => True)
      (updateParameterValue size parameter.toList p.header p.data)) ∧
    (∀ {size : UInt8} (pointer : Vector UInt8 size.toNat),
      Atomic pointer.toList (fun _ => True)
        (updateParameterValuePointer size pointer.toList p.header p.data)) ∧
    (∀ {size : ℕ} {n : UInt8} (array : Vector UInt8 (n.toNat * size)),
      Atomic array.toList (fun i => p.index.toNat * size ≤ i ∧ i < (p.index.toNat + 1) * size)
        (updateParameterValueArray size n array.toList p.header p.data)) ∧
    (∀ {maxSize : UInt8} (str : Vector UInt8 maxSize.toNat),
      Atomic str.toList (fun _ => True)
        (updateStringValue maxSize str.toList p.header p.data)) ∧
    ∀ {strSize maxCount : UInt8}
      (destination : Vector (Vector UInt8 strSize.toNat) maxCount.toNat),
      Atomic (entries destination)
        (fun j => p.index.toNat ≤ j ∧ j < p.index.toNat + p.strings.length)
        (updateStringListValue strSize maxCount (entries destination) p.header p.data) ∧
      ∀ response entries',
        updateStringListValue strSize maxCount (entries destination) p.header p.data =
          .ok (response, entries') → ∀ entry ∈ entries', entry.length = strSize.toNat :=
  ⟨updateParameterValue_atomic p, updateParameterValuePointer_atomic p,
    updateParameterValueArray_atomic p, updateStringValue_atomic p,
    updateStringListValue_atomic p⟩

/-! ## What the entries hold -/

/-- An entry holds a string: as much of it as there is room for, and the NUL if there is. -/
def StoredString (strSize : UInt8) (s entry : List UInt8) : Prop :=
  (∀ k, k < min s.length strSize.toNat → entry[k]? = s[k]?) ∧
    (s.length < strSize.toNat → entry[s.length]? = some 0)

/-- The bytes that the narrowed length leaves out are in the entry already. -/
def Covered (strSize : UInt8) (s entry : List UInt8) : Prop :=
  ∀ k, s.length % 256 ≤ k → k < min s.length strSize.toNat → entry[k]? = s[k]?

theorem storedString_iff {strSize : UInt8} {s entry : List UInt8}
    (h : entry.length = strSize.toNat) :
    StoredString strSize s (storeString strSize s entry) ↔ Covered strSize s entry := by
  have hstr := strSize.toNat_lt
  have hn : ∀ n, n ≤ s.length → n ≤ strSize.toNat → (s.take n).length = n := by
    intro n hs _
    rw [List.length_take]
    omega
  rw [storeString, UInt8.toNat_ofNat']
  rcases Nat.lt_or_ge s.length strSize.toNat with hshort | hlong
  · -- a short string is copied whole
    have hmod : s.length % 2 ^ 8 = s.length := Nat.mod_eq_of_lt (by omega)
    have hcopied : (writeAt entry 0 s).length = strSize.toNat := by
      rw [writeAt_length (by omega), h]
    rw [hmod, Nat.min_eq_left (Nat.le_of_lt hshort), List.take_length, if_pos hshort]
    refine iff_of_true ⟨?_, ?_⟩ fun k hlo hhi => by omega
    · intro k hk
      rw [writeAt_getElem? (by rw [hcopied]; exact hshort), if_neg (by omega),
        writeAt_getElem? (by omega), if_pos (by omega), Nat.sub_zero]
    · intro _
      rw [writeAt_getElem? (by rw [hcopied]; exact hshort), if_pos (by simp), Nat.sub_self]
      rfl
  · rw [if_neg (by omega), StoredString, Covered, Nat.min_eq_right hlong]
    generalize hm : min (s.length % 2 ^ 8) strSize.toNat = n
    have hlen := hn n (by have := Nat.mod_le s.length (2 ^ 8); omega) (by omega)
    have hread : ∀ k, (writeAt entry 0 (s.take n))[k]? =
        if k < n then s[k]? else entry[k]? := by
      intro k
      rw [writeAt_getElem? (by omega), hlen]
      by_cases hk : k < n
      · rw [if_pos (by omega), if_pos hk, Nat.sub_zero, List.getElem?_take_of_lt hk]
      · rw [if_neg (by omega), if_neg hk]
    constructor
    · rintro ⟨hall, -⟩ k hlo hhi
      have hk := hall k hhi
      rwa [hread, if_neg (by omega)] at hk
    · intro hcovered
      refine ⟨?_, fun hlt => by omega⟩
      intro k hk
      rw [hread]
      split
      · rfl
      · exact hcovered k (by omega) hk

section
variable {strSize maxCount : UInt8}
  (destination : Vector (Vector UInt8 strSize.toNat) maxCount.toNat)

/-- The update is that of its specification: it ends without a fault; an answer that it is done
means that the entries from the index on hold the strings behind it, as many as there are entries,
and the others are as they were; and any other answer means that all are. -/
def UpdatesStrings : Prop :=
  ∃ response entries',
    updateStringListValue strSize maxCount (entries destination) p.header p.data =
      .ok (response, entries') ∧
    (response.isOk = true →
      (∀ k s, p.strings[k]? = some s → p.index.toNat + k < maxCount.toNat →
        ∃ entry, entries'[p.index.toNat + k]? = some entry ∧ StoredString strSize s entry) ∧
      ∀ j, j < p.index.toNat ∨ p.index.toNat + p.strings.length ≤ j →
        entries'[j]? = (entries destination)[j]?) ∧
    (response.isOk = false → entries' = entries destination)

/-- For each string that is stored, what its narrowed length leaves out is there already. -/
def NarrowsWell : Prop :=
  ∀ k s entry, p.strings[k]? = some s →
    (entries destination)[p.index.toNat + k]? = some entry → Covered strSize s entry

theorem getElem?_stored {k : ℕ} {s entry : List UInt8} (hs : p.strings[k]? = some s)
    (hentry : (entries destination)[p.index.toNat + k]? = some entry) :
    ((entries destination).mapIdx
        (storedAt strSize p.strings p.index.toNat))[p.index.toNat + k]? =
      some (storeString strSize s entry) := by
  have hfor : stringFor p.strings p.index.toNat (p.index.toNat + k) = some s := by
    rw [stringFor, if_pos (Nat.le_add_right ..), Nat.add_sub_cancel_left, hs]
  rw [List.getElem?_mapIdx, hentry, Option.map_some, storedAt, hfor]

/-- **A list of strings is updated as specified exactly when each string that is stored is shorter
than 256 bytes, or the rest of its length modulo 256 still fills the entry, or the entry holds
the bytes that are left out.** -/
theorem updatesStrings_iff : UpdatesStrings p destination ↔ NarrowsWell p destination := by
  have hsizes := entry_length destination
  rw [UpdatesStrings, updateStringListValue_eq]
  by_cases hbad : p.header.size.toNat < 2 ∨ maxCount ≤ p.index
  · rw [if_pos hbad]
    refine iff_of_true ⟨_, _, rfl, ?_, fun _ => rfl⟩ ?_
    · intro hok
      cases hok
    -- nothing would be stored
    intro k s entry hs hentry
    exfalso
    rcases hbad with hsize | hindex
    · have hnone : p.data.drop 1 = [] := by
        refine List.drop_of_length_le ?_
        rw [p.sized]
        omega
      rw [SizedPacket.strings, hnone] at hs
      cases hs
    · have hlt := (List.getElem?_eq_some_iff.mp hentry).1
      rw [entries_length] at hlt
      have hle : maxCount.toNat ≤ p.index.toNat := hindex
      omega
  · rw [if_neg hbad]
    constructor
    · rintro ⟨response, entries', heq, hok, -⟩ k s entry hs hentry
      cases heq
      have hlt := (List.getElem?_eq_some_iff.mp hentry).1
      rw [entries_length] at hlt
      obtain ⟨entry', hentry', hholds⟩ := (hok rfl).1 k s hs hlt
      rw [getElem?_stored p destination hs hentry] at hentry'
      cases hentry'
      exact (storedString_iff (hsizes _ (List.mem_of_getElem? hentry))).mp hholds
    · intro hnarrows
      refine ⟨_, _, rfl, fun _ => ⟨fun k s hs hlt => ?_, fun j hj => ?_⟩, fun h => by cases h⟩
      · have hentry := List.getElem?_eq_getElem (l := entries destination)
          (i := p.index.toNat + k) (by rwa [entries_length])
        refine ⟨_, getElem?_stored p destination hs hentry, ?_⟩
        exact (storedString_iff (hsizes _ (List.getElem_mem _))).mpr
          (hnarrows k s _ hs hentry)
      · obtain ⟨_, _, heq, -, hframe, -⟩ := (updateStringListValue_atomic p destination).1
        rw [updateStringListValue_eq, if_neg hbad] at heq
        cases heq
        exact hframe j (by omega)

end

/-- One string of 256 characters, for entry 0. -/
def longString : SizedPacket where
  header := { signature := packetSignature, requestId := 1, type := 0, size := 257 }
  data := 0 :: List.replicate 256 0x61
  sized := by
    rw [List.length_cons, List.length_replicate]
    rfl

def zeroEntry : Vector (Vector UInt8 (4 : UInt8).toNat) (1 : UInt8).toNat :=
  #v[#v[0, 0, 0, 0]]

/-- The length 256 becomes 0: the update answers that it is done, and has stored nothing. -/
theorem longString_not_stored : ¬ UpdatesStrings longString zeroEntry := by
  rintro ⟨response, entries', heq, hok, -⟩
  have hpos : 0 < (List.replicate 256 (0x61 : UInt8)).length := by
    rw [List.length_replicate]
    decide
  have hstrings : longString.strings = [List.replicate 256 0x61] :=
    splitNul_of_notMem (fun hmem => absurd (List.eq_of_mem_replicate hmem) (by decide))
      (List.ne_nil_of_length_pos hpos)
  have hfirst : longString.strings[0]? = some (List.replicate 256 0x61) := by
    rw [hstrings]
    rfl
  have hentry : (entries zeroEntry)[longString.index.toNat + 0]? = some [0, 0, 0, 0] := rfl
  have hstored := getElem?_stored longString zeroEntry hfirst hentry
  rw [updateStringListValue_eq, if_neg (by decide)] at heq
  obtain ⟨rfl, rfl⟩ := Prod.mk.inj (Except.ok.inj heq)
  obtain ⟨entry, hnow, hholds⟩ := (hok rfl).1 0 _ hfirst (by decide)
  obtain rfl := Option.some.inj (hstored.symm.trans hnow)
  have hbyte := ((storedString_iff rfl).mp hholds) 0
    (by rw [List.length_replicate]) (by rw [List.length_replicate]; decide)
  rw [List.getElem?_replicate] at hbyte
  exact absurd hbyte (by decide)

end EspIot
