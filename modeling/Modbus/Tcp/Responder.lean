import Modbus.Tcp.Mbap

/-!
This module contains a server at the other end of a connection as a master sees it. It takes the
stream apart into messages and sends one message in return for each of them, with the same
transaction id.
-/

namespace Modbus

namespace Mbap

def decode (bs : List UInt8) : Option (Mbap × List UInt8) :=
  match bs with
  | id1 :: id0 :: protocol1 :: protocol0 :: length1 :: length0 :: unit :: rest =>
    let size := (word length1 length0).toNat - 1
    if h : (1 ≤ size ∧ size ≤ maxPduSize) ∧ size ≤ rest.length then
      let m :=
        {
          id := word id1 id0
          protocol := word protocol1 protocol0
          unit
          pdu := rest.take size
          pdu_pos := by
            rw [List.length_take]
            omega
          pdu_le := by
            rw [List.length_take]
            omega
        }
      some (m, rest.drop size)
    else
      none
  | _ => none

def decodeAll (bs : List UInt8) : List Mbap :=
  go bs.length bs
where
  go : Nat → List UInt8 → List Mbap
    | 0, _ => []
    | n + 1, bs =>
      match decode bs with
      | none => []
      | some (m, rest) => m :: go n rest

theorem decode_encode (m : Mbap) (rest : List UInt8)
    : decode (m.encode ++ rest) = some (m, rest) := by
  have hpos := m.pdu_pos
  have hle := m.pdu_le
  have hsize : m.length.toNat - 1 = m.pdu.length := by
    rw [toNat_length]
    rfl
  simp only [encode, mbapHeader, List.cons_append, List.nil_append, decode, word_hiByte_loByte,
    hsize]
  rw [dif_pos (by rw [List.length_append]; omega)]
  simp

theorem decodeAll.go_encode (ms : List Mbap) {n : Nat} (hn : ms.length ≤ n)
    : decodeAll.go n (ms.flatMap encode) = ms := by
  induction ms generalizing n with
  | nil => cases n <;> rfl
  | cons m ms ih =>
    obtain ⟨n, rfl⟩ : ∃ k, n = k + 1 := ⟨n - 1, by rw [List.length_cons] at hn; omega⟩
    rw [List.flatMap_cons, decodeAll.go, decode_encode]
    dsimp only
    rw [ih (by simpa using hn)]

theorem length_le_flatMap_encode (ms : List Mbap) : ms.length ≤ (ms.flatMap encode).length := by
  induction ms with
  | nil => simp
  | cons m ms ih =>
    have hpos := List.length_pos_iff.mpr m.encode_ne_nil
    rw [List.flatMap_cons, List.length_append, List.length_cons]
    omega

theorem decodeAll_encode (ms : List Mbap) : decodeAll (ms.flatMap encode) = ms := by
  apply decodeAll.go_encode
  apply length_le_flatMap_encode

end Mbap

/-- A server replies to a request, in view of the requests before it, under the id it has. -/
structure Responder where
  reply : List Mbap → Mbap → Mbap
  id_reply : ∀ (history : List Mbap) (request : Mbap), (reply history request).id = request.id
  protocol_reply : ∀ (history : List Mbap) (request : Mbap), (reply history request).protocol = 0

namespace Responder

variable (server : Responder)

def replies (requests : List Mbap) : List Mbap :=
  go [] requests
where
  go (history : List Mbap) : List Mbap → List Mbap
    | [] => []
    | request :: requests => server.reply history request :: go (history ++ [request]) requests

def respond (received : List UInt8) : List UInt8 :=
  (server.replies (Mbap.decodeAll received)).flatMap Mbap.encode

theorem replies.go_concat (history requests : List Mbap) (request : Mbap)
    : replies.go server history (requests ++ [request])
        =
      replies.go server history requests ++ [server.reply (history ++ requests) request] := by
  induction requests generalizing history with
  | nil => simp [replies.go]
  | cons r requests ih =>
    rw [List.cons_append, replies.go, replies.go, ih]
    simp

theorem replies_concat (requests : List Mbap) (request : Mbap)
    : server.replies (requests ++ [request])
        =
      server.replies requests ++ [server.reply requests request] := by
  apply replies.go_concat

theorem replies.go_length (history requests : List Mbap)
    : (replies.go server history requests).length = requests.length := by
  induction requests generalizing history with
  | nil => rfl
  | cons r requests ih => simp [replies.go, ih]

theorem length_replies (requests : List Mbap)
    : (server.replies requests).length = requests.length := by
  apply replies.go_length

theorem replies.go_protocol (history requests : List Mbap) {m : Mbap}
    (h : m ∈ replies.go server history requests)
    : m.protocol = 0 := by
  induction requests generalizing history with
  | nil => simp [replies.go] at h
  | cons r requests ih =>
    rw [replies.go, List.mem_cons] at h
    obtain rfl | h := h
    . apply protocol_reply
    . exact ih _ h

theorem protocol_of_mem_replies {requests : List Mbap} {m : Mbap} (h : m ∈ server.replies requests)
    : m.protocol = 0 := by
  exact replies.go_protocol server [] requests h

theorem respond_encode (requests : List Mbap)
    : server.respond (requests.flatMap Mbap.encode)
        =
      (server.replies requests).flatMap Mbap.encode := by
  rw [respond, Mbap.decodeAll_encode]

end Responder

end Modbus
