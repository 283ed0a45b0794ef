import Minicask.Bytes

/-!
# CRC-32

The table-driven checksum of `crc.rs`, the IEEE 802.3 polynomial reflected.
-/

namespace Minicask
namespace Crc

def poly : UInt32 := 0xEDB88320

def shiftBit (crc : UInt32) : UInt32 :=
  if crc &&& 1 = 1 then (crc >>> 1) ^^^ poly else crc >>> 1

/-- Entry `i` of the table: eight bits of `i` shifted out. -/
def buildTable (i : Fin 256) : UInt32 :=
  (List.range 8).foldl (fun crc _ => shiftBit crc) (UInt32.ofNat i)

def updateByte (crc : UInt32) (byte : UInt8) : UInt32 :=
  let idx := Fin.ofNat 256 ((crc ^^^ byte.toUInt32) &&& 0xFF).toNat
  buildTable idx ^^^ (crc >>> 8)

def update (crc : UInt32) (data : Bytes) : UInt32 :=
  data.foldl updateByte crc

/-- Checksum of several buffers, as if they were concatenated. -/
def crc32Parts (parts : List Bytes) : UInt32 :=
  parts.foldl update 0xFFFFFFFF ^^^ 0xFFFFFFFF

/-- A checksum fed a piece at a time, for data too large to hold at once. -/
structure Crc32 where
  state : UInt32
deriving Repr, DecidableEq

namespace Crc32

def new : Crc32 where
  state := 0xFFFFFFFF

def update (running : Crc32) (data : Bytes) : Crc32 where
  state := Crc.update running.state data

def finish (running : Crc32) : UInt32 :=
  running.state ^^^ 0xFFFFFFFF

end Crc32

theorem crc32Parts_append (before middle : Bytes) (rest : List Bytes) :
    crc32Parts ((before ++ middle) :: rest) =
      crc32Parts (before :: middle :: rest) := by
  simp [crc32Parts, update]

example : crc32Parts ["123456789".toUTF8.toList] = 0xCBF43926 := by
  decide +kernel

end Crc
end Minicask
