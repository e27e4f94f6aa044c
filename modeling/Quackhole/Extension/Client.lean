import Quackhole.Extension.Routing
import Quackhole.Http.Request
import Quackhole.Ticket.Forms

/-!
# The HTTP client of the extension

A client reads the host, the port and the endpoint id off the address it is made for, and
marshals each request over the C ABI.  The strings cross it up to their first NUL, and what
the core is handed is the request that DuckDB made.
-/

namespace Quackhole.Extension.Client

open Quackhole.Word Quackhole.Ticket

/-! ## The address -/

/-- Everything behind the last occurrence of a character. -/
def afterLast (delimiter : Char) (text : Text) : Text :=
  (text.reverse.takeWhile (· ≠ delimiter)).reverse

/-- What stands behind the scheme. -/
def afterScheme (value : Text) : Text :=
  match findWord "://".toList value with
  | some scheme => value.drop (scheme + 3)
  | none => value

/-- The host and the port, at the last colon. -/
def splitPort (value : Text) : Text × Text :=
  if ':' ∈ value then (beforeLast ':' value, afterLast ':' value) else (value, quackPort)

/-- `ParseProtoHostPort`: the host and the port. -/
def parseProtoHostPort (protoHostPort : Text) : Text × Text :=
  splitPort (beforeFirst '/' (afterScheme protoHostPort))

structure QuackholeHTTPClient where
  endpointId : Text
  host : Text
  port : Text

/-- The constructor. -/
def make (protoHostPort : Text) : QuackholeHTTPClient where
  endpointId := Routing.extractEndpointId protoHostPort
  host := (parseProtoHostPort protoHostPort).1
  port := (parseProtoHostPort protoHostPort).2

/-- The text of the `IOException`. -/
def noAddress (host : Text) : Text :=
  "quackhole: '".toList ++ host ++ "' is not a <endpoint-id>.iroh address".toList

/-! ## The request -/

/-- `qh_request`, up to `Core::request`: the peer and the request.  Every string is read up to
its first NUL. -/
def qhRequest (endpointId method path host port : Text) (headers : List (Text × Text))
    (body : Bytes) (hasBody : Bool) (contentType : Text) : Text × Http.Request :=
  (untilNul endpointId,
    { method := untilNul method
      path := untilNul path
      host := untilNul host
      port := untilNul port
      headers := headers.map fun header => (untilNul header.1, untilNul header.2)
      body := if hasBody then some body else none
      contentType := untilNul contentType })

namespace QuackholeHTTPClient

variable (client : QuackholeHTTPClient)

/-- `RoundTrip`, up to the core. -/
def roundTrip (method path : Text) (headers : List (Text × Text)) (body : Bytes) (hasBody : Bool)
    (contentType : Text) : Except Text (Text × Http.Request) :=
  if client.endpointId.isEmpty then .error (noAddress client.host)
  else
    .ok (qhRequest client.endpointId method path client.host client.port headers body hasBody
      contentType)

/-- `Post`. -/
def post (path : Text) (headers : List (Text × Text)) (body : Bytes) :
    Except Text (Text × Http.Request) :=
  client.roundTrip "POST".toList path headers body true []

/-- `Get`. -/
def get (path : Text) (headers : List (Text × Text)) : Except Text (Text × Http.Request) :=
  client.roundTrip "GET".toList path headers [] false []

/-- `Put`, which alone has a type for its body. -/
def put (path : Text) (headers : List (Text × Text)) (body : Bytes) (contentType : Text) :
    Except Text (Text × Http.Request) :=
  client.roundTrip "PUT".toList path headers body true contentType

/-- `Head`. -/
def head (path : Text) (headers : List (Text × Text)) : Except Text (Text × Http.Request) :=
  client.roundTrip "HEAD".toList path headers [] false []

/-- `Delete`. -/
def delete (path : Text) (headers : List (Text × Text)) : Except Text (Text × Http.Request) :=
  client.roundTrip "DELETE".toList path headers [] false []

end QuackholeHTTPClient

/-! ## An address of a peer -/

/-- A peer as a URL names it. -/
structure Target where
  secure : Bool
  label : Text
  port : Option Nat
  filled : label ≠ []
  solid : Solid label
  noColon : ':' ∉ label
  noSlash : '/' ∉ label
  noNul : '\x00' ∉ label
  fits : (utf8 label).length + 1 ≤ endpointIdLen

namespace Target

variable (target : Target)

def scheme : Text :=
  if target.secure then "https".toList else "http".toList

def host : Text :=
  target.label ++ irohSuffix

/-- The port and the colon in front of it. -/
def portText : Text :=
  match target.port with
  | some port => ':' :: decimal port
  | none => []

def protoHostPort : Text :=
  target.scheme ++ "://".toList ++ (target.host ++ target.portText)

/-- The port that is meant if none is written. -/
def quack : Text :=
  (target.port.map decimal).getD quackPort

theorem mem_host {c : Char} (label : c ∉ target.label) (suffix : c ∉ irohSuffix) :
    c ∉ target.host := by
  rw [host, List.mem_append, not_or]
  exact ⟨label, suffix⟩

/-- The host, as a part of an address. -/
def addressHost : Ticket.Host where
  text := target.host
  colon_notMem := target.mem_host target.noColon (by decide)
  slash_notMem := target.mem_host target.noSlash (by decide)
  solid := target.solid.append (by decide)

theorem scheme_letters : target.scheme.all Char.isAlpha = true := by
  rw [scheme]
  split <;> decide

theorem all_isDigit_decimal (n : Nat) : (decimal n).all Char.isDigit = true :=
  List.all_eq_true.mpr fun _ member => isDigit_of_mem_decimal member

theorem form : AddressForm target.addressHost target.protoHostPort := by
  rw [protoHostPort, portText]
  split
  · exact .urlPort target.scheme_letters (all_isDigit_decimal _)
  · rw [List.append_nil]
    exact .url target.scheme_letters

theorem parseAddress_protoHostPort :
    Peer.parseAddress target.protoHostPort = some target.label := by
  have read := (@parseAddress_form target.addressHost target.protoHostPort [] [] target.form
    (fun _ member => absurd member List.not_mem_nil)
    (fun _ member => absurd member List.not_mem_nil) target.label).mpr
      ⟨target.filled, irohSuffix, rfl, by decide⟩
  rwa [List.nil_append, List.append_nil] at read

theorem notMem_portText {c : Char} (noDigit : c.isDigit = false) (noColon : c ≠ ':') :
    c ∉ target.portText := by
  rw [portText]
  split
  · rw [List.mem_cons, not_or]
    exact ⟨noColon, notMem_of_digits (all_isDigit_decimal _) noDigit⟩
  · exact List.not_mem_nil

theorem noNul_protoHostPort : '\x00' ∉ target.protoHostPort := by
  rw [protoHostPort, List.mem_append, List.mem_append, List.mem_append, not_or, not_or, not_or]
  exact ⟨⟨notMem_of_letters target.scheme_letters (by decide), by decide⟩,
    target.mem_host target.noNul (by decide), target.notMem_portText (by decide) (by decide)⟩

/-- The client finds the peer in the address. -/
theorem extractEndpointId_protoHostPort :
    Routing.extractEndpointId target.protoHostPort = target.label := by
  rw [Routing.extractEndpointId, untilNul_eq_self target.noNul_protoHostPort,
    target.parseAddress_protoHostPort, Option.bind_some,
    writeStrOrErr_eq_ok_iff.mpr ⟨target.fits, rfl⟩, untilNul_eq_self target.noNul]
  rfl

theorem afterScheme_protoHostPort :
    afterScheme target.protoHostPort = target.host ++ target.portText := by
  have found : findWord "://".toList target.protoHostPort = some target.scheme.length := by
    apply findWord_append_of_unbordered (by decide)
    · show ∀ k < "://".toList.length, 0 < k → ¬ "://".toList.drop k <+: "://".toList
      decide
    · intro inside
      have colon : ':' ∈ target.scheme := inside.subset (by decide)
      exact notMem_of_letters target.scheme_letters (by decide) colon
  have length : target.scheme.length + 3 = (target.scheme ++ "://".toList).length := by simp
  rw [afterScheme, found]
  dsimp only
  rw [length, protoHostPort, List.drop_left]

/-- It finds the host and the port. -/
theorem parseProtoHostPort_eq :
    parseProtoHostPort target.protoHostPort = (target.host, target.quack) := by
  have whole : '/' ∉ target.host ++ target.portText := by
    rw [List.mem_append, not_or]
    exact ⟨target.mem_host target.noSlash (by decide),
      target.notMem_portText (by decide) (by decide)⟩
  have noColon := target.mem_host target.noColon (by decide)
  rw [parseProtoHostPort, target.afterScheme_protoHostPort, beforeFirst_eq_self whole, portText,
    quack]
  cases target.port with
  | none =>
      rw [List.append_nil, splitPort, if_neg noColon]
      rfl
  | some port =>
      have digits : ':' ∉ decimal port := notMem_of_digits (all_isDigit_decimal _) (by decide)
      have last : afterLast ':' (target.host ++ ':' :: decimal port) = decimal port := by
        rw [afterLast, List.reverse_append, List.reverse_cons, List.append_assoc,
          List.takeWhile_append_of_pos]
        · simp
        · intro c member
          have different : c ≠ ':' := by
            rintro rfl
            exact digits (List.mem_reverse.mp member)
          simpa using different
      dsimp only
      rw [splitPort, if_pos (by simp), beforeLast_append target.host digits, last]
      rfl

/-- The client of an address. -/
theorem make_protoHostPort :
    make target.protoHostPort = ⟨target.label, target.host, target.quack⟩ := by
  rw [make, target.extractEndpointId_protoHostPort, target.parseProtoHostPort_eq]

theorem noNul_quack : '\x00' ∉ target.quack := by
  rw [quack]
  cases target.port with
  | none => decide
  | some port => exact notMem_of_digits (all_isDigit_decimal _) (by decide)

end Target

/-- What DuckDB hands the client reaches the core unchanged, unless it has a NUL in it. -/
theorem roundTrip_make (target : Target) {method path contentType : Text}
    {headers : List (Text × Text)} (body : Bytes) (hasBody : Bool) (plainMethod : '\x00' ∉ method)
    (plainPath : '\x00' ∉ path) (plainType : '\x00' ∉ contentType)
    (plainHeaders : ∀ header ∈ headers, '\x00' ∉ header.1 ∧ '\x00' ∉ header.2) :
    (make target.protoHostPort).roundTrip method path headers body hasBody contentType =
      .ok (target.label,
        { method := method
          path := path
          host := target.host
          port := target.quack
          headers := headers
          body := if hasBody then some body else none
          contentType := contentType }) := by
  have filled : target.label.isEmpty = false := by
    rw [List.isEmpty_eq_false_iff]
    exact target.filled
  have kept : headers.map (fun header => (untilNul header.1, untilNul header.2)) = headers := by
    apply (List.map_congr_left fun header member => ?_).trans (List.map_id headers)
    rw [untilNul_eq_self (plainHeaders header member).1,
      untilNul_eq_self (plainHeaders header member).2]
    rfl
  rw [target.make_protoHostPort, QuackholeHTTPClient.roundTrip]
  dsimp only
  rw [filled, if_neg Bool.false_ne_true, qhRequest, kept, untilNul_eq_self target.noNul,
    untilNul_eq_self plainMethod, untilNul_eq_self plainPath, untilNul_eq_self plainType,
    untilNul_eq_self (target.mem_host target.noNul (by decide)),
    untilNul_eq_self target.noNul_quack]

end Quackhole.Extension.Client
