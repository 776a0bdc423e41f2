/-!
A byte sink that can fill up. A write may take only part of what it is offered;
writing everything goes on until all is taken or the sink refuses.
-/

namespace Relaxation

structure Sink where
  /-- Bytes the sink still takes, none if it never fills up. -/
  room : Option Nat
  /-- One less than the most bytes each successive write takes. -/
  portion : Nat → Nat
  /-- Why the full sink refuses. -/
  reason : String
  writes : Nat := 0
  taken : Array UInt8 := #[]

namespace Sink

def unlimited : Sink where
  room := none
  portion _ := 0xffffffff
  reason := ""

def limited (room : Nat) (reason : String) : Sink where
  room := some room
  portion _ := room
  reason := reason

def accepts (sink : Sink) (offered : Nat) : Nat :=
  min (min offered (sink.room.getD offered)) (sink.portion sink.writes + 1)

def take (sink : Sink) (bytes : List UInt8) : Sink :=
  { sink with
    room := sink.room.map (· - bytes.length)
    writes := sink.writes + 1
    taken := sink.taken ++ bytes.toArray }

def writeAll (sink : Sink) : List UInt8 → Except String Unit × Sink
  | [] => (.ok (), sink)
  | byte :: rest =>
    match sink.accepts (rest.length + 1) with
    | 0 => (.error sink.reason, sink)
    | count + 1 => (sink.take (byte :: rest.take count)).writeAll (rest.drop count)
termination_by bytes => bytes.length
decreasing_by
  simp only [List.length_drop, List.length_cons]
  omega

def encode (text : String) : List UInt8 :=
  text.toUTF8.toList

def writePieces (sink : Sink) : List String → Except String Unit × Sink
  | [] => (.ok (), sink)
  | piece :: rest =>
    match sink.writeAll (encode piece) with
    | (.ok (), sink) => sink.writePieces rest
    | failed => failed

end Sink
end Relaxation
