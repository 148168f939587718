import AiProxy.Lib.Reads

/-!
# Reading a response head

`read_http_response_head` of `connect.rs`. The reads of a stream are given by what each of them
returns; after the last one the stream has ended.
-/

namespace AiProxy.Tunnel

def maxHeaderBytes : Nat := 64 * 1024

def readBufferBytes : Nat := 8 * 1024

def crlf : List UInt8 := [0x0d, 0x0a]

def headEnd : List UInt8 := crlf ++ crlf

/-- A head, the bytes that followed it in the same read, and the reads that were not made. -/
structure ResponseHead where
  head : List UInt8
  leftover : List UInt8
  unread : List (List UInt8)

def readHead (buf : List UInt8) : List (List UInt8) → Except String ResponseHead
  | [] => .error "upstream closed before response head completed"
  | chunk :: reads =>
    if chunk = [] then .error "upstream closed before response head completed"
    else if (buf ++ chunk).length > maxHeaderBytes then
      .error ("response head exceeded maximum size of " ++ toString maxHeaderBytes ++ " bytes")
    else
      match Reads.position headEnd (buf ++ chunk) with
      | some n => .ok ⟨(buf ++ chunk).take (n + 4), (buf ++ chunk).drop (n + 4), reads⟩
      | none => readHead (buf ++ chunk) reads

def readHttpResponseHead (reads : List (List UInt8)) : Except String ResponseHead := readHead [] reads

/-- The reads of a stream: each brings something, and no more than the buffer of a read holds. -/
def IsReads (reads : List (List UInt8)) : Prop := ∀ r ∈ reads, r ≠ [] ∧ r.length ≤ readBufferBytes

/-- What is returned is the stream up to the end of its head, and the rest of the stream. -/
structure ResponseHead.Splits (h : ResponseHead) (stream : List UInt8) (headLength : Nat) : Prop where
  head : h.head = stream.take headLength
  rest : h.leftover ++ h.unread.flatten = stream.drop headLength

end AiProxy.Tunnel
