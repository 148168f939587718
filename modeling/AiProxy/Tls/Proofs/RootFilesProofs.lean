import AiProxy.Tls.RootFiles

/-!
# The files of the root certificate after a crash

Only a rename changes what the files hold. Between the rename of the key and that of the certificate the
new key stands beside the old certificate.
-/

namespace AiProxy.Tls

open List Function

variable {belongs : Text → Text → Prop} {dir : CertDir} {contents certPem keyPem : Text}
  {file : RootFile}

theorem forall_crash_append {P : CertDir → Prop} {first second : List Change} :
    (∀ made, P (crash dir (first ++ second) made)) ↔ (∀ made, P (crash dir first made)) ∧
      ∀ made, P (crash (first.foldl Change.apply dir) second made) := by
  constructor
  · refine fun h => ⟨fun made => ?_, fun made => ?_⟩
    · have hfirst := h (min made first.length)
      rwa [crash, take_append_of_le_length (Nat.min_le_right ..), ← take_eq_take_min] at hfirst
    · have hsecond := h (first.length + made)
      rwa [crash, take_length_add_append, foldl_append] at hsecond
  · rintro ⟨hfirst, hsecond⟩ made
    rcases le_total made first.length with hle | hle
    · rw [crash, take_append_of_le_length hle]
      exact hfirst made
    · obtain ⟨more, rfl⟩ := Nat.exists_eq_add_of_le hle
      rw [crash, take_length_add_append, foldl_append]
      exact hsecond more

theorem foldl_write (text : Text) (h : dir.temp file = some text) :
    (contents.map (Change.write file)).foldl Change.apply dir =
      { dir with temp := update dir.temp file (some (text ++ contents)) } := by
  induction contents generalizing dir text with
  | nil => rw [map_nil, foldl_nil, append_nil, ← h, update_eq_self]
  | cons c contents ih =>
    rw [map_cons, foldl_cons, ih (text ++ [c]) (by simp [Change.apply, h])]
    simp [Change.apply]

theorem foldl_create (contents : Text) :
    (.create file :: contents.map (Change.write file)).foldl Change.apply dir =
      { dir with temp := update dir.temp file (some contents) } := by
  rw [foldl_cons, foldl_write [] (by simp [Change.apply])]
  simp [Change.apply]

theorem foldl_writeFileAtomic : ((writeFileAtomic file contents).foldl Change.apply dir).root =
    update dir.root file (some contents) := by
  rw [writeFileAtomic, foldl_append, foldl_create]
  simp [Change.apply]

/-- A write leaves the files alone until its rename, which replaces one. -/
theorem forall_crash_writeFileAtomic {P : RootFiles → Prop} :
    (∀ made, P (crash dir (writeFileAtomic file contents) made).root) ↔
      P dir.root ∧ P (update dir.root file (some contents)) := by
  have htorn : ∀ made, (crash dir (.create file :: contents.map (.write file)) made).root =
      dir.root := by
    rintro (_ | made)
    · rfl
    · rw [crash, take_succ_cons, ← map_take, foldl_create]
  constructor
  · intro h
    refine ⟨h 0, ?_⟩
    have hall := h (writeFileAtomic file contents).length
    rwa [crash, take_length, foldl_writeFileAtomic] at hall
  · rintro ⟨hold, hnew⟩
    refine (forall_crash_append (P := fun dir => P dir.root)).mpr ⟨fun made => ?_, ?_⟩
    · rwa [htorn]
    · rw [foldl_create]
      rintro (_ | made)
      · exact hold
      · simpa [crash, Change.apply] using hnew

/-- A crash while the certificate is saved finds nothing replaced, the key, the key and the
certificate, or all of them. -/
theorem survivesCrashes_saveRootCert : SurvivesCrashes belongs dir (saveRootCert certPem keyPem) ↔
    Sound belongs dir.root ∧ Sound belongs (update dir.root .key (some keyPem)) ∧
      Sound belongs (update (update dir.root .key (some keyPem)) .cert (some certPem)) ∧
      Sound belongs (update (update (update dir.root .key (some keyPem)) .cert (some certPem))
        .installCopy (some certPem)) := by
  unfold SurvivesCrashes saveRootCert
  rw [forall_crash_append (P := fun dir => Sound belongs dir.root),
    forall_crash_append (P := fun dir => Sound belongs dir.root)]
  simp only [forall_crash_writeFileAtomic, foldl_writeFileAtomic]
  tauto

theorem survivesCrashes_removeRootCert (hprior : Matching belongs dir.root) :
    SurvivesCrashes belongs dir removeRootCert := by
  rintro (_ | made) - cert hcert key hkey
  · exact hprior cert hcert key hkey
  · -- the key is removed first
    have hgone : (crash dir removeRootCert (made + 1)).root .key = none := by
      rcases made with _ | _ | made <;> simp [crash, removeRootCert, Change.apply]
    cases hgone.symm.trans hkey

/-- A crash leaves a matching pair, or none that counts, exactly if the new key belongs to the old
certificate when both can be read. -/
theorem root_files_survive_iff (hprior : Matching belongs dir.root) (hnew : belongs keyPem certPem) :
    SurvivesCrashes belongs dir (saveRootCert certPem keyPem) ∧
      SurvivesCrashes belongs dir removeRootCert ↔
    ∀ cert ∈ dir.root .cert, pemBlockIsComplete cert "CERTIFICATE" = true →
      keyIsComplete keyPem = true → belongs keyPem cert := by
  rw [and_iff_left (survivesCrashes_removeRootCert hprior), survivesCrashes_saveRootCert]
  constructor
  · rintro ⟨-, hkey, -⟩ cert hcert hcomplete hcomplete'
    refine hkey ?_ cert hcert keyPem rfl
    show ((dir.root .cert).any _ && _) = true
    rw [hcert]
    exact Bool.and_eq_true_iff.mpr ⟨hcomplete, hcomplete'⟩
  · intro hold
    refine ⟨fun _ => hprior, fun hexists cert hcert key hkey => ?_, fun _ => ?_, fun _ => ?_⟩
    · rw [rootCertExists, hcert, hkey] at hexists
      obtain ⟨hcomplete, hcomplete'⟩ := Bool.and_eq_true_iff.mp hexists
      obtain rfl : keyPem = key := Option.some.inj hkey
      exact hold cert hcert hcomplete hcomplete'
    all_goals
      rintro _ ⟨⟩ _ ⟨⟩
      exact hnew

namespace Sample

def pem (label body : String) : Text :=
  ("-----BEGIN " ++ label ++ "-----\n" ++ body ++ "\n-----END " ++ label ++ "-----").toList

def someKey : String → Text := pem "PRIVATE KEY"

def someCert : String → Text := pem "CERTIFICATE"

def pairs (key cert : Text) : Prop :=
  ∃ body ∈ ["AAAA", "AAAB"], key = someKey body ∧ cert = someCert body

def firstPair : CertDir where
  root file := if file = .key then someKey "AAAA" else someCert "AAAA"
  temp _ := none

end Sample

open Sample

/-- The new key stands beside the old certificate. -/
theorem crash_leaves_mixed_pair :
    Matching pairs firstPair.root ∧ pairs (someKey "AAAB") (someCert "AAAB") ∧
    ¬ SurvivesCrashes pairs firstPair (saveRootCert (someCert "AAAB") (someKey "AAAB")) := by
  refine ⟨?_, ⟨"AAAB", by decide, rfl, rfl⟩, fun h => ?_⟩
  · rintro cert ⟨⟩ key ⟨⟩
    exact ⟨"AAAA", by decide, rfl, rfl⟩
  · obtain ⟨body, hbody, hkey, hcert⟩ := (survivesCrashes_saveRootCert.mp h).2.1 (by decide +kernel)
      (someCert "AAAA") rfl (someKey "AAAB") rfl
    revert body
    decide

/-- The first certificate of a directory. -/
theorem root_files_survive_first :
    Matching pairs (fun _ => none) ∧ pairs (someKey "AAAA") (someCert "AAAA") ∧
    SurvivesCrashes pairs ⟨fun _ => none, fun _ => none⟩
      (saveRootCert (someCert "AAAA") (someKey "AAAA")) := by
  have hprior : Matching pairs (fun _ => none) := by rintro cert ⟨⟩
  have hnew : pairs (someKey "AAAA") (someCert "AAAA") := ⟨"AAAA", by decide, rfl, rfl⟩
  refine ⟨hprior, hnew, ((root_files_survive_iff hprior hnew).mpr ?_).1⟩
  rintro cert ⟨⟩

end AiProxy.Tls
