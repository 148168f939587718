import AiProxy.Lib.Base64
import AiProxy.Mcp.Curl
import Mathlib.Logic.Function.Basic

/-!
# The files of the root certificate

`storage.rs`: the certificate directory, the operations that save and remove the root certificate as
the changes they make one after the other, and the check whether there is one. A crash keeps the changes
made before it.
-/

namespace AiProxy.Tls

open Function (update)
open Mcp (splitOnce trim)

inductive RootFile where
  | key
  | cert
  | installCopy
  deriving DecidableEq

abbrev RootFiles := RootFile → Option Text

/-- The files, and the temporary ones that are to replace them. -/
structure CertDir where
  root : RootFiles
  temp : RootFiles

inductive Change where
  | create (temp : RootFile)
  | write (temp : RootFile) (c : Char)
  | rename (file : RootFile)
  | remove (file : RootFile)

def Change.apply (dir : CertDir) : Change → CertDir
  | .create file => { dir with temp := update dir.temp file (some []) }
  | .write file c => { dir with temp := update dir.temp file ((dir.temp file).map (· ++ [c])) }
  | .rename file => ⟨update dir.root file (dir.temp file), update dir.temp file none⟩
  | .remove file => { dir with root := update dir.root file none }

def writeFileAtomic (file : RootFile) (contents : Text) : List Change :=
  .create file :: contents.map (.write file) ++ [.rename file]

def saveRootCert (certPem keyPem : Text) : List Change :=
  writeFileAtomic .key keyPem ++
    (writeFileAtomic .cert certPem ++ writeFileAtomic .installCopy certPem)

def removeRootCert : List Change := [.remove .key, .remove .cert, .remove .installCopy]

/-- The directory after a crash that comes when `made` of the changes are made. -/
def crash (dir : CertDir) (changes : List Change) (made : Nat) : CertDir :=
  (changes.take made).foldl Change.apply dir

def lines (text : Text) : List Text :=
  let all := text.splitOn '\n'
  all.dropLast.map (fun line => if line.getLast? = some '\r' then line.dropLast else line) ++
    all.getLast?.toList

def pemBlockIsComplete (pem : Text) (label : String) : Bool :=
  match splitOnce ("-----BEGIN " ++ label ++ "-----").toList pem with
  | none => false
  | some (_, rest) =>
    match splitOnce ("-----END " ++ label ++ "-----").toList rest with
    | none => false
    | some (block, _) =>
      let body := ((lines block).filter fun line => trim line ≠ [] ∧ ':' ∉ trim line).flatten
      (Base64.decodeChars (trim body)).isSome

def keyIsComplete (pem : Text) : Bool :=
  ["PRIVATE KEY", "EC PRIVATE KEY", "RSA PRIVATE KEY", "ENCRYPTED PRIVATE KEY"].any
    (pemBlockIsComplete pem)

def rootCertExists (root : RootFiles) : Bool :=
  (root .cert).any (pemBlockIsComplete · "CERTIFICATE") && (root .key).any keyIsComplete

/-- The stored key, if there is one with a certificate, is the key of that certificate. -/
def Matching (belongs : Text → Text → Prop) (root : RootFiles) : Prop :=
  ∀ cert ∈ root .cert, ∀ key ∈ root .key, belongs key cert

/-- A pair that does not match is regenerated. -/
def Sound (belongs : Text → Text → Prop) (root : RootFiles) : Prop :=
  rootCertExists root = true → Matching belongs root

def SurvivesCrashes (belongs : Text → Text → Prop) (dir : CertDir) (changes : List Change) : Prop :=
  ∀ made, Sound belongs (crash dir changes made).root

end AiProxy.Tls
