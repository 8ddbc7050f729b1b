import CelWasm.Library.Leb128

/-!
# Abi/WasmBinary — custom sections of a wasm binary

A core module is a preamble and a row of sections, each an id, its size and its bytes; a custom
section begins with its name. `FindCustomSection` walks the sections and skips what is not custom,
`AppendCustomSection` puts a section behind the last. Every read of the buffer is a step of its own
here, and one past the end is a fault that no status stands for.

    preamble · (0 · size · (length · name · payload)  |  id · size · bytes)*
-/

namespace CelWasm

/-- A text of a status, in bytes, as it may quote the name of a section. -/
def statusText (s : String) : List UInt8 := s.toUTF8.toList

/-- What becomes of a function that does not return a value: a status, a read past the end of the
buffer, or no end of its loop. -/
inductive WasmFault
  | invalidArgument (message : List UInt8)
  | notFound (message : List UInt8)
  | outOfBounds
  | endless

/-- A function that reads a buffer. -/
abbrev WasmRead := Except WasmFault

/-! ## Reading the buffer -/

section Reading

variable (bytes : List UInt8)

/-- `bytes[pos]`. -/
def byteAt (pos : ℕ) : WasmRead UInt8 :=
  match bytes[pos]? with
  | some b => .ok b
  | none => .error .outOfBounds

/-- `n` bytes from `pos` on. -/
def bytesAt (pos n : ℕ) : WasmRead (List UInt8) :=
  if pos + n ≤ bytes.length then .ok ((bytes.drop pos).take n) else .error .outOfBounds

/-- `kWasmMagic`. -/
def kWasmMagic : List UInt8 := [0x00, 0x61, 0x73, 0x6d]

/-- `kPreambleSize`. -/
def kPreambleSize : ℕ := 8

/-- `kCoreVersionWord`. -/
def kCoreVersionWord : ℕ := 1

/-- `kCustomSectionId`. -/
def kCustomSectionId : UInt8 := 0

/-- `kMaxU32LebBytes`. -/
def kMaxU32LebBytes : ℕ := 5

/-- `IsCoreModule`. -/
def isCoreModule : WasmRead Bool :=
  if bytes.length < kPreambleSize then .ok false
  else do
    let magic ← bytesAt bytes 0 4
    if magic ≠ kWasmMagic then return false
    else
      let word ← bytesAt bytes 4 4
      return leNat word == kCoreVersionWord

/-- The loop of `ReadLeb128U32`: where the encoding ends and its number, if it ends in time. -/
def readLebLoop : ℕ → ℕ → UInt32 → UInt32 → WasmRead (Option (ℕ × UInt32))
  | 0, _, _, _ => .ok none
  | left + 1, pos, shift, out =>
    if bytes.length ≤ pos then .ok none
    else do
      let b ← byteAt bytes pos
      let out := out ||| ((b &&& 0x7f).toUInt32 <<< shift)
      if b &&& 0x80 = 0 then return some (pos + 1, out)
      else readLebLoop left (pos + 1) (shift + 7) out

/-- **`ReadLeb128U32`**. -/
def readLeb128U32 (pos : ℕ) : WasmRead (Option (ℕ × UInt32)) :=
  readLebLoop bytes kMaxU32LebBytes pos 0 0

/-- `ReadFramingLeb`. -/
def readFramingLeb (pos : ℕ) (what : String) : WasmRead (ℕ × UInt32) := do
  match ← readLeb128U32 bytes pos with
  | some read => return read
  | none =>
    throw (.invalidArgument (statusText ("wasm_binary: truncated or overlong LEB128 " ++ what)))

/-- `ReadSectionName`: where the name ends, and the name. -/
def readSectionName (pos sectionEnd : ℕ) : WasmRead (ℕ × List UInt8) := do
  let (pos, nameLen) ← readFramingLeb bytes pos "custom-section name length"
  if sectionEnd < pos + nameLen.toNat then
    throw (.invalidArgument
      (statusText "wasm_binary: custom section name length runs past section end"))
  else
    let name ← bytesAt bytes pos nameLen.toNat
    return (pos + nameLen.toNat, name)

end Reading

/-! ## Finding a section -/

section Finding

variable (bytes name : List UInt8)

/-- The status of a name that two sections have. -/
def duplicateSection : WasmFault :=
  .invalidArgument (statusText "wasm_binary: duplicate top-level custom section `" ++ name ++
    statusText "`")

/-- The status of a name that no section has. -/
def sectionNotFound : WasmFault :=
  .notFound (statusText "wasm_binary: custom section `" ++ name ++
    statusText "` not found at top level")

/-- What the walk has found behind a section; one that is not custom is skipped. -/
def foundInSection (sectionId : UInt8) (pos sectionEnd : ℕ) (found : Option (List UInt8)) :
    WasmRead (Option (List UInt8)) :=
  if sectionId = kCustomSectionId then do
    let (pos, sectionName) ← readSectionName bytes pos sectionEnd
    if sectionName = name then
      if found.isSome then throw (duplicateSection name)
      else some <$> bytesAt bytes pos (sectionEnd - pos)
    else return found
  else .ok found

/-- The loop of `FindCustomSection`, for `left` times around at most. -/
def sectionWalk (left pos : ℕ) (found : Option (List UInt8)) : WasmRead (List UInt8) :=
  if bytes.length ≤ pos then
    match found with
    | some payload => .ok payload
    | none => .error (sectionNotFound name)
  else
    match left with
    | 0 => .error .endless
    | left + 1 => do
      let sectionId ← byteAt bytes pos
      let (pos, size) ← readFramingLeb bytes (pos + 1) "section size"
      if bytes.length < pos + size.toNat then
        throw (.invalidArgument (statusText "wasm_binary: section size runs past end of binary"))
      else
        let found ← foundInSection bytes name sectionId pos (pos + size.toNat) found
        sectionWalk left (pos + size.toNat) found

/-- **`FindCustomSection`**. The walk takes a byte at least each time around. -/
def findCustomSection : WasmRead (List UInt8) := do
  if ← isCoreModule bytes then sectionWalk bytes name bytes.length kPreambleSize none
  else
    throw (.invalidArgument (statusText
      "wasm_binary: bytes are not a core wasm module (bad or truncated preamble)"))

end Finding

/-! ## Appending a section -/

/-- `AppendLeb128U32`: the bytes that are appended. -/
def appendLeb128U32 (value : UInt32) : List UInt8 :=
  if value >>> 7 = 0 then [(value &&& 0x7f).toUInt8]
  else ((value &&& 0x7f).toUInt8 ||| 0x80) :: appendLeb128U32 (value >>> 7)
termination_by value.toNat
decreasing_by
  rename_i h
  rw [← UInt32.toNat_inj, UInt32.toNat_shiftRight, Nat.shiftRight_eq_div_pow] at h
  rw [UInt32.toNat_shiftRight, Nat.shiftRight_eq_div_pow]
  change ¬ value.toNat / 128 = 0 at h
  change value.toNat / 128 < value.toNat
  omega

section Appending

variable (name payload : List UInt8)

/-- The bytes of a custom section that its size counts. -/
def customSectionBody : List UInt8 :=
  appendLeb128U32 (UInt32.ofNat name.length) ++ name ++ payload

/-- `BuildCustomSection`. -/
def buildCustomSection : List UInt8 :=
  let body := customSectionBody name payload
  kCustomSectionId :: (appendLeb128U32 (UInt32.ofNat body.length) ++ body)

/-- **`AppendCustomSection`**. -/
def appendCustomSection (bytes : List UInt8) : WasmRead (List UInt8) :=
  match findCustomSection bytes name with
  | .ok _ => .error (.invalidArgument (statusText "wasm_binary: custom section `" ++ name ++
      statusText "` already present"))
  | .error (.notFound _) => .ok (bytes ++ buildCustomSection name payload)
  | .error fault => .error fault

end Appending

end CelWasm
