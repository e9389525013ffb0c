import Kexplorer.Kesctl.Client
import Kexplorer.Server.Framing
import Kexplorer.Server.RequestProcessor

/-!
# Where a response ends

The server escapes the text of a response with a JSON writer, which leaves
braces as they are.  The client finds the end of a response by counting raw
braces.  `accepts_reply_iff` says for which replies and which cuts of them the
two agree; a brace in a string can make the client give up early or read on.
-/

namespace Kexplorer.Kesctl

open Kexplorer.Lib Kexplorer.Util Kexplorer.Props Kexplorer.Server

namespace Client

/-- The client takes a reply of the server, cut in some way, if and only if its braces are
balanced without regard to strings and no inner chunk ends where they are. -/
theorem accepts_reply_iff {σ η : Type} (reg : Registry) (strtod : Bytes → Option Json.Double)
    (impl : η → IRequestHandler σ) (rp : RequestProcessor η) (sessionId : UInt32)
    (request : Bytes) (length : Nat) (w : σ) {c : Client} (hc : Reachable c) {text : Bytes}
    (hReturned : (rp.process reg strtod impl sessionId request length w).1 = .returned text)
    (hLen : text.length < bufferLimit) {chunks : List Bytes} (hNe : ∀ c ∈ chunks, c ≠ [])
    (hCut : chunks.flatten = text) :
    c.reset.Accepts text chunks ↔ CutAt text chunks := by
  obtain ⟨members, rfl⟩ :=
    RequestProcessor.process_returns reg strtod impl rp sessionId request length w text hReturned
  obtain ⟨rest, hHead⟩ := (Json.isObject_render members).head
  rw [hHead] at hLen hCut ⊢
  exact takes_iff hc (Nat.le_of_lt hLen) hNe hCut

/-- A response without braces in its strings is taken however it is cut. -/
theorem accepts_of_isPlainObject {c : Client} (hc : Reachable c) {text : Bytes}
    (hText : IsPlainObject text) (hLen : text.length ≤ bufferLimit) {chunks : List Bytes}
    (hNe : ∀ c ∈ chunks, c ≠ []) (hCut : chunks.flatten = text) : c.reset.Accepts text chunks := by
  obtain ⟨rest, rfl⟩ := hText.head
  exact (takes_iff hc hLen hNe hCut).mpr
    (cutAt_of_enclosed (enclosed_of_isPlainObject hText) hNe hCut)

/-- What a processor without handlers answers. -/
def idleReply (request : Bytes) : Reply :=
  (RequestProcessor.process Registry.empty (fun _ => none)
    (fun handler : Empty => (nomatch handler : IRequestHandler Unit)) ⟨[]⟩ 1 request
    request.length ()).1

/-- The reply to a request without a command. -/
def unsupported : Bytes :=
  ascii ("\x7b\"request.id\":0,\"response.status\":\"fail\"," ++
    "\"response.reason\":\"Unsupported request\"\x7d")

theorem accepts_reply_iff_unsupported :
    new.reset.Accepts unsupported [unsupported.take 15, unsupported.drop 15] ↔
      CutAt unsupported [unsupported.take 15, unsupported.drop 15] :=
  accepts_reply_iff Registry.empty (fun _ => none)
    (fun handler : Empty => (nomatch handler : IRequestHandler Unit)) ⟨[]⟩ 1 (ascii "\x7b\x7d") 2 ()
    .new (show idleReply (ascii "\x7b\x7d") = .returned unsupported by decide +kernel)
    (by decide +kernel) (by decide) (by decide)

/-- The reply to a request with a comma missing; the message of the parser holds a brace. -/
def missingComma : Bytes :=
  ascii ("\x7b\"request.id\":0,\"response.status\":\"fail\"," ++
    "\"response.reason\":\"Failed to parse JSON: " ++
    "[Missing a comma or '\x7d' after an object member.] at 7\"\x7d")

/-- The client gives up on the reply to a request with a comma missing. -/
theorem missingComma_rejected :
    idleReply (ascii "\x7b\"a\":1 \"b\":2\x7d") = .returned missingComma ∧
      missingComma.length < bufferLimit ∧ ¬ new.reset.Accepts missingComma [missingComma] := by
  have hLen : missingComma.length < bufferLimit := by decide +kernel
  have hCloses : ¬ braces.NeverCloses missingComma := by decide +kernel
  refine ⟨by decide +kernel, hLen, ?_⟩
  obtain ⟨rest, hHead⟩ : ∃ rest, missingComma = 0x7B :: rest := ⟨missingComma.tail, by decide +kernel⟩
  rw [hHead] at hLen hCloses ⊢
  rw [takes_iff .new (Nat.le_of_lt hLen) (by simp) (by simp)]
  exact fun h => hCloses h.1

end Client

end Kexplorer.Kesctl
