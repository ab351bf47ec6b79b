/-
`Transport.lean` -- `get_json` of `src/client.rs`, down to the bytes.

The client reads until the connection closes and takes what has come for the
response: it does not look at a `Content-Length`. That is safe because a response
shows where it ends. The head ends at an empty line, and the body is an array or an
object, of which no part is JSON. So a response is read as the server has sent it if
all of it comes, and otherwise it is an error, wherever it breaks off
([`read_whole_or_not_at_all`]).

`serde_json` and the fields that the server puts into the head are parameters.
-/
import Spanfall.Lib.Http
import Spanfall.Api.Client

set_option autoImplicit false

namespace Spanfall

open Lib Lib.Http Lib.Utf8

/-- What comes of the exchange on the socket: one of its steps fails, or these bytes
have been read to the end. -/
inductive Exchange where
  | connect_failed (e : String)
  | write_failed (e : String)
  | read_failed (e : String)
  | read (raw : List UInt8)

/-- `get_json` behind the `read_to_end`. -/
def read_raw (from_slice : List UInt8 → Except String Json) (addr path : String)
    (raw : List UInt8) : Except String Json :=
  match head_end raw with
  | none => .error ("malformed HTTP response from " ++ addr ++ path)
  | some split =>
    let headers := from_utf8_lossy (raw.take split)
    let status_line := String.ofList (first_line headers)
    if ¬str_contains status_line " 200 " then .error (path ++ " returned `" ++ status_line ++ "`")
    else
      match from_slice (raw.drop (split + 4)) with
      | .ok body => .ok body
      | .error e => .error ("parsing response from " ++ path ++ ": " ++ e)

/-- `get_json`. -/
def get_json_raw (from_slice : List UInt8 → Except String Json) (addr path : String) :
    Exchange → Except String Json
  | .connect_failed e => .error ("no spanfall instance found at " ++ addr ++ " (" ++ e
      ++ ") -- start one with `spanfall`")
  | .write_failed e => .error ("write to " ++ addr ++ ": " ++ e)
  | .read_failed e => .error ("read from " ++ addr ++ ": " ++ e)
  | .read raw => read_raw from_slice addr path raw

variable {from_slice : List UInt8 → Except String Json} {to_vec : Json → List UInt8}
  {addr path : String} {response : Response Json} {raw : List UInt8}

/-- The first line of a response, as it is sent. -/
def Response.status_bytes (self : Response Json) : List UInt8 :=
  self.status_line.toList.map byte_of

/-- The bytes with which a server sends the response. -/
structure SentAs (to_vec : Json → List UInt8) (response : Response Json) (raw : List UInt8) :
    Prop where
  framed : ∃ fields body, raw = framed response.status_bytes fields body
    ∧ (∀ field ∈ fields, Line field ∧ field ≠ []) ∧ ∀ value, response = .ok value → body = to_vec value

/-- The status lines are ASCII, and each is one line. -/
theorem status_line_bytes (response : Response Json) :
    Line response.status_bytes ∧ (∀ b ∈ response.status_bytes, b.toNat < 128)
      ∧ String.ofList (response.status_bytes.map char_of) = response.status_line := by
  have hall : ∀ line ∈ ["HTTP/1.1 400 Bad Request", "HTTP/1.1 404 Not Found", "HTTP/1.1 200 OK"],
      Line (line.toList.map byte_of) ∧ (∀ b ∈ line.toList.map byte_of, b.toNat < 128)
        ∧ String.ofList ((line.toList.map byte_of).map char_of) = line := by decide +kernel
  refine hall response.status_line ?_
  cases response <;> simp [Response.status_line]

/-- A response of which at least the head has come. -/
theorem read_raw_take {fields : List (List UInt8)} {body : List UInt8}
    (hfields : ∀ field ∈ fields, Line field ∧ field ≠ []) {n : ℕ}
    (hn : (head response.status_bytes fields).length + 4 ≤ n) :
    read_raw from_slice addr path
        ((framed response.status_bytes fields body).take n)
      = if ¬str_contains response.status_line " 200 " then
          .error (path ++ " returned `" ++ response.status_line ++ "`")
        else
          match from_slice (body.take (n - ((head response.status_bytes fields).length + 4))) with
          | .ok value => .ok value
          | .error e => .error ("parsing response from " ++ path ++ ": " ++ e) := by
  obtain ⟨hline, hascii, hback⟩ := status_line_bytes response
  have hframed : head_end (framed response.status_bytes fields body)
      = some (head response.status_bytes fields).length := head_end_framed hline hfields
  have hend := head_end_take (n := n) hframed
  rw [if_pos hn] at hend
  rw [read_raw, hend]
  dsimp only
  rw [List.take_take, Nat.min_eq_left (Nat.le_of_add_right_le hn)]
  have hbody : (framed response.status_bytes fields body).drop
      ((head response.status_bytes fields).length + 4) = body := by
    rw [framed, ← List.drop_drop, List.drop_left]
    rfl
  have hhead : (framed response.status_bytes fields body).take
      (head response.status_bytes fields).length = head response.status_bytes fields := by
    rw [framed, List.take_left]
  rw [hhead, first_line_head hline hascii, hback, List.drop_take, hbody]

/-- **A response is read whole or not at all.** The client makes of the bytes of a
response what it would make of the response itself; and if the connection breaks off
before the last of them, it is an error wherever that is. Of `serde_json` it takes that
what it has written it reads back, and that no proper part of that is JSON, which is so
for arrays and objects. -/
theorem read_whole_or_not_at_all (hsent : SentAs to_vec response raw)
    (hwhole : ∀ value, response = .ok value → from_slice (to_vec value) = .ok value)
    (hbroken : ∀ value, response = .ok value → ∀ n < (to_vec value).length,
      ∃ e, from_slice ((to_vec value).take n) = .error e) :
    get_json_raw from_slice addr path (.read raw) = read_json path response
      ∧ ∀ n < raw.length, ∃ e, get_json_raw from_slice addr path (.read (raw.take n)) = .error e := by
  obtain ⟨fields, body, rfl, hfields, hbody⟩ := hsent.framed
  have hlength : (framed response.status_bytes fields body).length
      = (head response.status_bytes fields).length + 4 + body.length := by
    rw [framed, List.length_append]
    simp only [List.length_cons]
    omega
  have hstatus := status_line_ok response
  constructor
  · have hread : read_raw from_slice addr path ((framed response.status_bytes fields body).take
        (framed response.status_bytes fields body).length) = _ :=
      read_raw_take hfields (by rw [hlength]; exact Nat.le_add_right _ _)
    rw [List.take_length, hlength, Nat.add_sub_cancel_left, List.take_length] at hread
    rw [get_json_raw, hread]
    cases response with
    | ok value =>
      rw [if_neg (not_not.mpr (hstatus.mpr ⟨value, rfl⟩)), hbody value rfl, hwhole value rfl]
      rfl
    | _ =>
      rw [if_pos fun hok => by obtain ⟨_, hvalue⟩ := hstatus.mp hok; cases hvalue]
      rfl
  · intro n hn
    rw [get_json_raw]
    by_cases hhead : (head response.status_bytes fields).length + 4 ≤ n
    · rw [read_raw_take hfields hhead]
      by_cases hok : str_contains response.status_line " 200 " = true
      · -- the body has broken off
        obtain ⟨value, hvalue⟩ := hstatus.mp hok
        obtain ⟨e, he⟩ := hbroken value hvalue
          (n - ((head response.status_bytes fields).length + 4))
          (by rw [← hbody value hvalue]; omega)
        rw [if_neg (not_not.mpr hok), hbody value hvalue, he]
        exact ⟨_, rfl⟩
      · rw [if_pos hok]
        exact ⟨_, rfl⟩
    · -- the head has
      obtain ⟨hline, -, -⟩ := status_line_bytes response
      have hframed : head_end (framed response.status_bytes fields body)
          = some (head response.status_bytes fields).length := head_end_framed hline hfields
      have hend := head_end_take (n := n) hframed
      rw [if_neg hhead] at hend
      rw [read_raw, hend]
      exact ⟨_, rfl⟩

/-- The answer of the server in the tests of `src/client.rs`. -/
def ok_body : Json := .object [("ok", .bool true)]

def ok_text : List UInt8 := "\x7b\"ok\":true\x7d".toList.map byte_of

def ok_raw : List UInt8 :=
  framed (Response.ok ok_body).status_bytes
    ["Content-Type: application/json".toList.map byte_of, "Connection: close".toList.map byte_of]
    ok_text

/-- A parser of this one document. -/
def ok_from_slice (bytes : List UInt8) : Except String Json :=
  if bytes = ok_text then .ok ok_body else .error "EOF while parsing an object"

theorem ok_sent : SentAs (fun _ => ok_text) (.ok ok_body) ok_raw where
  framed := ⟨_, ok_text, rfl, by decide +kernel, fun _ _ => rfl⟩

theorem read_whole_or_not_at_all_ok :
    get_json_raw ok_from_slice "127.0.0.1:5317" "/api/traces" (.read ok_raw) = .ok ok_body
      ∧ ∀ n < ok_raw.length, ∃ e,
        get_json_raw ok_from_slice "127.0.0.1:5317" "/api/traces" (.read (ok_raw.take n))
          = .error e := by
  refine read_whole_or_not_at_all ok_sent (fun value hvalue => ?_) fun value _ n hn => ?_
  · rw [← Response.ok.inj hvalue]
    exact if_pos rfl
  · refine ⟨_, if_neg fun he => ?_⟩
    have hlength := congrArg List.length he
    rw [List.length_take, Nat.min_eq_left (Nat.le_of_lt hn)] at hlength
    exact absurd hlength (Nat.ne_of_lt hn)

end Spanfall
