import Quackhole.Word.Text
import Mathlib.Data.List.Destutter
import Mathlib.Data.List.Sort

/-!
# Endpoint ids and relay URLs

What the core reads out of the strings a person types: an endpoint id in any
of the forms iroh prints, one relay URL, and a list of relay URLs.  The parsers
of iroh itself are parameters.
-/

namespace Quackhole.Ticket

open Quackhole.Word

/-- The key and URL types of iroh, with the functions the core uses of them. -/
structure Iroh (Id Url : Type) where
  /-- `str::parse::<EndpointId>`: hex and RFC 4648 base32. -/
  fromStr : Text → Option Id
  /-- `EndpointId::from_z32`. -/
  fromZ32 : Text → Option Id
  /-- `EndpointId::to_z32`. -/
  toZ32 : Id → Text
  /-- `str::parse::<RelayUrl>`. -/
  parseUrl : Text → Option Url
  /-- The scheme of a URL. -/
  scheme : Url → Text
  /-- The text of a URL. -/
  urlText : Url → Text

namespace Iroh

variable {Id Url : Type} (iroh : Iroh Id Url)

/-- Parse an endpoint id in any form iroh prints. -/
def parseEndpointId (s : Text) : Except String Id :=
  let trimmed := trim s
  match (iroh.fromStr trimmed).or (iroh.fromZ32 trimmed) with
  | some endpointId => .ok endpointId
  | none => .error ("'" ++ String.ofList trimmed ++ "' is not a valid iroh endpoint id")

/-- Parse one relay URL, rejecting what iroh will accept but cannot dial. -/
def parseRelayUrl (input : Text) : Except String Url :=
  match iroh.parseUrl input with
  | none => .error ("'" ++ String.ofList input ++ "' is not a valid relay url")
  | some url =>
      if iroh.scheme url = "http".toList ∨ iroh.scheme url = "https".toList then .ok url
      else .error ("'" ++ String.ofList input ++ "' is not a valid relay url: a relay is reached " ++
        "over http or https, and this names the scheme '" ++ String.ofList (iroh.scheme url) ++
        "'. A host, or a host and port, parses as a scheme -- write it as https://" ++
        String.ofList input ++ "/ if that is what was meant.")

/-- The relay list `spec` names, in the order a relay map would hold it. -/
def parseRelays (spec : Text) : Except String (List Url) :=
  let pieces := (spec.splitOnP fun c => c = ',' || isWhitespace c).filter (· ≠ [])
  (pieces.mapM iroh.parseRelayUrl).map fun urls =>
    let ordered := urls.insertionSort fun first second =>
      precedes (iroh.urlText first) (iroh.urlText second)
    ordered.destutter fun first second => iroh.urlText first ≠ iroh.urlText second

/-- `spec` in a form two of them can be compared with. -/
def normalizeRelays (spec : Text) : Except String Text :=
  (iroh.parseRelays spec).map fun urls => [','].intercalate (urls.map iroh.urlText)

/-- What iroh documents of its ids: the printed form is read back, is not empty
and has neither blanks nor a NUL in it. -/
structure Lawful : Prop where
  fromZ32_toZ32 : ∀ endpointId, iroh.fromZ32 (iroh.toZ32 endpointId) = some endpointId
  solid_toZ32 : ∀ endpointId, Solid (iroh.toZ32 endpointId)
  nul_notMem_toZ32 : ∀ endpointId, '\x00' ∉ iroh.toZ32 endpointId
  toZ32_ne_nil : ∀ endpointId, iroh.toZ32 endpointId ≠ []

variable {iroh}

/-- The printed form of an endpoint id is accepted. -/
theorem Lawful.exists_parseEndpointId_toZ32 (lawful : iroh.Lawful) (endpointId : Id) :
    ∃ parsed, iroh.parseEndpointId (iroh.toZ32 endpointId) = .ok parsed := by
  rw [parseEndpointId, trim_eq_self (lawful.solid_toZ32 endpointId), lawful.fromZ32_toZ32]
  cases iroh.fromStr (iroh.toZ32 endpointId) with
  | none => exact ⟨endpointId, rfl⟩
  | some other => exact ⟨other, rfl⟩

end Iroh

end Quackhole.Ticket
