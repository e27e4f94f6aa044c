import Quackhole.Ticket.Keys
import Quackhole.Transition.Labelled
import Mathlib.Logic.Function.Basic

/-!
# The key file

The identity of an endpoint is a secret key in a file.  A process that starts
reads the file if there is one and else makes a key and writes it, and several
processes can do so at the same time: whoever creates the file writes its key
into it, and everyone else reads it, whole or not.
-/

namespace Quackhole.Identity

open Quackhole.Word Quackhole.Ticket Quackhole.Transition

/-- `SecretKey`: 32 bytes. -/
@[ext]
structure SecretKey where
  bytes : Bytes
  size : bytes.length = 32

instance : DecidableEq SecretKey := fun first second =>
  decidable_of_iff (first.bytes = second.bytes) SecretKey.ext_iff.symm

/-- `hex::encode` of a key, which is what its file holds. -/
def keyText (secret : SecretKey) : Text :=
  Hex.encode hexLower secret.bytes

/-- `hex::decode`, which takes letters of either case. -/
def hexDecode (text : Text) : Option Bytes :=
  Hex.decode hexLower (asciiLower text)

/-- Read and decode what a key file holds. -/
def loadKey (path : String) (text : Text) : Except String SecretKey :=
  match hexDecode (trim text) with
  | none => .error ("endpoint key at " ++ path ++ " is not hex")
  | some raw =>
      if size : raw.length = 32 then .ok ⟨raw, size⟩
      else .error ("endpoint key at " ++ path ++ " is not 32 bytes")

/-- How far one call of `load_or_create_key` has come. -/
inductive Phase where
  /-- Before it looks whether the file exists. -/
  | calling
  /-- There was no file, and its directory is made. -/
  | making
  /-- Before it creates the file. -/
  | creating
  /-- It created the file, and still has to write the rest of its key. -/
  | writing (secret : SecretKey) (rest : Text)
  /-- There is a file, which it reads next. -/
  | loading
  | returned (result : Except String SecretKey)

/-- What a call does next, with what is up to its surroundings: the key that is
generated, how much one write gets done, and whether an operation fails. -/
inductive Move where
  | exists
  | createDir
  | createPrivate (secret : SecretKey)
  | write (count : Nat)
  | loadKey
  | fail

/-- The file, if it exists, and where each process is in its call. -/
structure KeyFile (Process : Type) where
  file : Option Text
  phase : Process → Phase

/-- Nobody has a file yet. -/
def KeyFile.absent {Process : Type} : KeyFile Process :=
  ⟨none, fun _ => .calling⟩

/-- One move of a call: the file and the phase after it. -/
def movePhase (path directory : String) :
    Move → Option Text → Phase → Option (Option Text × Phase)
  | .exists, file, .calling => some (file, if file.isSome then .loading else .making)
  | .createDir, file, .making => some (file, .creating)
  | .createPrivate secret, none, .creating => some (some [], .writing secret (keyText secret))
  | .createPrivate _, some text, .creating => some (some text, .loading)
  | .write count, some text, .writing secret rest =>
      if 0 < count ∧ count ≤ rest.length then
        some (some (text ++ rest.take count),
          if count = rest.length then .returned (.ok secret)
          else .writing secret (rest.drop count))
      else none
  | .loadKey, some text, .loading => some (some text, .returned (loadKey path text))
  | .fail, file, .making =>
      some (file, .returned (.error ("failed to create key directory " ++ directory)))
  | .fail, file, .creating =>
      some (file, .returned (.error ("failed to create endpoint key at " ++ path)))
  | .fail, file, .writing _ _ =>
      some (file, .returned (.error ("failed to write endpoint key at " ++ path)))
  | .fail, file, .loading =>
      some (file, .returned (.error ("failed to read endpoint key at " ++ path)))
  | _, _, _ => none

/-- One move of one process. -/
def nextKeyFile {Process : Type} [DecidableEq Process] (path directory : String) :
    LStep (Process × Move) (KeyFile Process) :=
  fun (process, move) state =>
    (movePhase path directory move state.file (state.phase process)).map fun (file, phase) =>
      ⟨file, Function.update state.phase process phase⟩

/-! ## Decoding -/

@[simp]
theorem length_keyText (secret : SecretKey) : (keyText secret).length = 64 := by
  rw [keyText, Hex.length_encode, secret.size]

theorem mem_hexLower_of_mem_keyText {secret : SecretKey} {c : Char}
    (member : c ∈ keyText secret) : c ∈ hexLower.letters :=
  hexLower.mem_of_mem_write (by omega) c member

theorem loadKey_keyText (path : String) (secret : SecretKey) :
    loadKey path (keyText secret) = .ok secret := by
  have letters : Solid hexLower.letters := by decide
  have solid : Solid (keyText secret) := fun c member =>
    letters c (mem_hexLower_of_mem_keyText member)
  have lower : asciiLower (keyText secret) = keyText secret :=
    asciiLower_eq_self fun c member => toLower_of_mem (by decide) (mem_hexLower_of_mem_keyText member)
  have decoded : hexDecode (trim (keyText secret)) = some secret.bytes := by
    rw [trim_eq_self solid, hexDecode, lower, keyText, Hex.decode_encode]
  rw [loadKey, decoded]
  dsimp only
  rw [dif_pos secret.size]

/-- A file is decoded only when it has all the letters of a key. -/
theorem length_of_loadKey {path : String} {text : Text} {secret : SecretKey}
    (loaded : loadKey path text = .ok secret) : 64 ≤ text.length := by
  rw [loadKey] at loaded
  split at loaded
  · cases loaded
  · rename_i raw decoded
    split at loaded
    · rename_i size
      rw [hexDecode, Hex.decode, Option.ite_none_right_eq_some] at decoded
      rcases Option.map_eq_some_iff.mp decoded.2 with ⟨n, -, rfl⟩
      have trimmed : (trim text).length ≤ text.length :=
        ((List.rdropWhile_prefix isWhitespace _).length_le).trans
          (List.dropWhile_suffix isWhitespace).length_le
      rw [bytesOfValue, List.length_map, length_numeral, asciiLower, List.length_map] at size
      omega
    · cases loaded

/-- A part of a key is no key. -/
theorem exists_loadKey_eq_error (path : String) {text : Text} (short : text.length < 64) :
    ∃ message, loadKey path text = .error message := by
  cases loaded : loadKey path text with
  | error message => exact ⟨message, rfl⟩
  | ok secret =>
      have long := length_of_loadKey loaded
      omega

end Quackhole.Identity
