import SumoProvision.Foundations.Quoting
import SumoProvision.Wire.ContentHash

/-!
# Bootstrap entries

`ca vhsm-bootstrap-token` writes the entry of a guest for the `bootstrap.yaml` of the daemon: the id
of the guest as a double-quoted key, and under it the digest of its bootstrap token. The id comes
from the command line, and `yaml_escape` escapes it.

`yamlEscape_quotes` says that the key is read back as the id, whatever the id is, and
`bootstrapYamlFragment_inj` that different entries have different texts.
-/

namespace Cli

open Wire Quoting

/-! ## Definitions -/

/-- `token_sha256_hex`: the digest of a bootstrap token in hexadecimal. -/
def tokenSha256Hex (sha : Sha256) (rawToken : Bytes) : String :=
  (sha ⟨rawToken.toArray⟩).toBare

/-- `str::replace` for a character. -/
def replaceChar (s : String) (c : Char) (text : String) : String :=
  String.ofList (replace c text.toList s.toList)

/-- Escape the backslashes, and then the quotes. -/
def yamlEscape (s : String) : String :=
  replaceChar (replaceChar s '\\' "\\\\") '"' "\\\""

/-- The entry of a guest, under a quoted key. -/
def bootstrapYamlFragment (vmId sha256Hex : String) : String :=
  "  \"" ++ yamlEscape vmId ++ "\":\n    sha256: \"" ++ sha256Hex ++ "\"\n    consumed: false\n"

/-- A document with one entry. -/
def bootstrapYamlDocument (vmId sha256Hex : String) : String :=
  "tokens:\n" ++ bootstrapYamlFragment vmId sha256Hex

/-- What a fragment has behind the key. -/
def entryRest (sha256Hex : String) : List Char :=
  (":\n    sha256: \"" ++ sha256Hex ++ "\"\n    consumed: false\n").toList

/-- The text behind the first quote. -/
def afterOpeningQuote (text : String) : List Char :=
  (text.toList.dropWhile (· ≠ '"')).tail

/-! ## The key of an entry -/

theorem toList_yamlEscape (s : String) : (yamlEscape s).toList = escape '\\' '"' s.toList := by
  simp [yamlEscape, replaceChar, escape]

/-- The key is the first thing in quotes, and it ends where the escaped id does. -/
theorem afterOpeningQuote_fragment (vmId sha256Hex : String) :
    afterOpeningQuote (bootstrapYamlFragment vmId sha256Hex) =
      (yamlEscape vmId).toList ++ '"' :: entryRest sha256Hex := by
  have htext : (bootstrapYamlFragment vmId sha256Hex).toList =
      ' ' :: ' ' :: '"' :: ((yamlEscape vmId).toList ++ '"' :: entryRest sha256Hex) := by
    simp [bootstrapYamlFragment, entryRest]
  rw [afterOpeningQuote, htext]
  simp

/-- The key of a document is the one of its entry. -/
theorem afterOpeningQuote_document (vmId sha256Hex : String) :
    afterOpeningQuote (bootstrapYamlDocument vmId sha256Hex) =
      afterOpeningQuote (bootstrapYamlFragment vmId sha256Hex) := by
  simp [afterOpeningQuote, bootstrapYamlDocument]

theorem scan_afterOpeningQuote (vmId sha256Hex : String) :
    scan '\\' '"' (afterOpeningQuote (bootstrapYamlFragment vmId sha256Hex)) =
      some ((yamlEscape vmId).toList, entryRest sha256Hex) := by
  rw [afterOpeningQuote_fragment, toList_yamlEscape]
  exact scan_escape (by decide) _ _

theorem unescape_yamlEscape (vmId : String) :
    unescape '\\' (yamlEscape vmId).toList = vmId.toList := by
  rw [toList_yamlEscape]
  exact unescape_escape (by decide) _

theorem yamlEscape_inj {vmId vmId' : String} :
    yamlEscape vmId = yamlEscape vmId' ↔ vmId = vmId' := by
  rw [← String.toList_inj, toList_yamlEscape, toList_yamlEscape,
    (escape_injective (by decide)).eq_iff, String.toList_inj]

/-- Entries with one text have one key and one digest. -/
theorem bootstrapYamlFragment_inj {vmId vmId' sha256Hex sha256Hex' : String} :
    bootstrapYamlFragment vmId sha256Hex = bootstrapYamlFragment vmId' sha256Hex' ↔
      vmId = vmId' ∧ sha256Hex = sha256Hex' := by
  constructor
  · intro h
    have hscan := scan_afterOpeningQuote vmId sha256Hex
    rw [h, scan_afterOpeningQuote, Option.some.injEq, Prod.mk.injEq] at hscan
    obtain ⟨hkey, hrest⟩ := hscan
    refine ⟨yamlEscape_inj.mp (String.toList_inj.mp hkey.symm), String.toList_inj.mp ?_⟩
    simpa [entryRest] using hrest.symm
  · rintro ⟨rfl, rfl⟩
    rfl

/-- The escaping of ids is a quoting: read from the opening quote of a fragment, the key ends
exactly where the escaped id does, and without the escapes it is the id. So different ids have
different keys, and no id closes its key early: no beginning of an escaped id has an unescaped
quote. -/
theorem yamlEscape_quotes :
    (∀ vmId sha256Hex,
      afterOpeningQuote (bootstrapYamlFragment vmId sha256Hex) =
        (yamlEscape vmId).toList ++ '"' :: entryRest sha256Hex ∧
      scan '\\' '"' (afterOpeningQuote (bootstrapYamlFragment vmId sha256Hex)) =
        some ((yamlEscape vmId).toList, entryRest sha256Hex) ∧
      unescape '\\' (yamlEscape vmId).toList = vmId.toList) ∧
    Function.Injective yamlEscape ∧
    ∀ vmId pre post, (yamlEscape vmId).toList = pre ++ post → scan '\\' '"' pre = none := by
  refine ⟨fun vmId sha256Hex => ⟨afterOpeningQuote_fragment vmId sha256Hex,
    scan_afterOpeningQuote vmId sha256Hex, unescape_yamlEscape vmId⟩,
    fun _ _ => yamlEscape_inj.mp, fun vmId pre post h => ?_⟩
  rw [toList_yamlEscape] at h
  exact scan_eq_none_of_append (by decide) h

/-- An id with a quote and a backslash. Behind its first three characters the key is still open. -/
theorem yamlEscape_quotes_vm_test :
    yamlEscape "vm\"\\test" = "vm\\\"\\\\test" ∧
      scan '\\' '"' ['v', 'm', '\\', '"'] = none ∧
      unescape '\\' (yamlEscape "vm\"\\test").toList = "vm\"\\test".toList := by
  have htext : yamlEscape "vm\"\\test" = "vm\\\"\\\\test" := by decide +kernel
  obtain ⟨hread, -, hopen⟩ := yamlEscape_quotes
  refine ⟨htext, hopen "vm\"\\test" _ ['\\', '\\', 't', 'e', 's', 't'] ?_,
    (hread "vm\"\\test" "00").2.2⟩
  rw [htext]
  rfl

/-! ## The digest of an entry -/

/-- The digest is written without escaping, and is read back as it is. -/
theorem scan_tokenSha256Hex (sha : Sha256) (rawToken : Bytes) (rest : List Char) :
    scan '\\' '"' ((tokenSha256Hex sha rawToken).toList ++ '"' :: rest) =
      some ((tokenSha256Hex sha rawToken).toList, rest) := by
  have hplain : escape '\\' '"' (tokenSha256Hex sha rawToken).toList =
      (tokenSha256Hex sha rawToken).toList := by
    apply escape_eq_self (by decide)
    all_goals
      rw [tokenSha256Hex, ContentHash.toBare, String.toList_ofList]
      exact Hex.notMem_encode (by decide) _
  rw [← hplain]
  exact scan_escape (by decide) _ rest

end Cli
