import AcmeGitWebhook.Library.Shell
import AcmeGitWebhook.Monitor.CertMonitor

/-!
# The renew command

The command line that `_run_renew` of `app/cert_monitor.py` makes of the configured template, and
the arguments it is split into. The domain is quoted for a shell and put in first, so that the
four variables of the `openssl` section are looked for in the domain too.

## Main results

* `renewArgs_uninjected`: a domain has no say in the arguments but in those the template has it in.
-/

namespace AcmeGitWebhook.Monitor

open Library Library.Shell

inductive KeyAlgorithm where
  | rsa | ecdsa | ed25519
  deriving DecidableEq, Repr

def KeyAlgorithm.text : KeyAlgorithm → String
  | .rsa => "rsa"
  | .ecdsa => "ecdsa"
  | .ed25519 => "ed25519"

inductive EcdsaCurve where
  | secp256r1 | secp384r1 | secp521r1
  deriving DecidableEq, Repr

def EcdsaCurve.text : EcdsaCurve → String
  | .secp256r1 => "secp256r1"
  | .secp384r1 => "secp384r1"
  | .secp521r1 => "secp521r1"

inductive SignatureHash where
  | sha256 | sha384 | sha512
  deriving DecidableEq, Repr

def SignatureHash.text : SignatureHash → String
  | .sha256 => "sha256"
  | .sha384 => "sha384"
  | .sha512 => "sha512"

/-- The fields of the `openssl` section that a template can name. -/
structure OpensslConfig where
  keyAlgorithm : KeyAlgorithm := .ecdsa
  rsaKeySize : Int := 4096
  ecdsaCurve : EcdsaCurve := .secp384r1
  signatureHash : SignatureHash := .sha384

/-- The variables of a template in the order in which they are put in. -/
def OpensslConfig.values (openssl : OpensslConfig) : List (String × String) :=
  [("{key_type}", openssl.keyAlgorithm.text), ("{key_size}", toString openssl.rsaKeySize),
    ("{curve}", openssl.ecdsaCurve.text), ("{sig_hash}", openssl.signatureHash.text)]

/-- The command line for a domain. -/
def renewCommand (template : String) (openssl : Option OpensslConfig) (domain : String) : String :=
  let cmd := Python.replaceAll "{domain}" (quote domain) template
  match openssl with
  | none => cmd
  | some openssl =>
    openssl.values.foldl (fun cmd (name, value) => Python.replaceAll name value cmd) cmd

/-- The arguments that `_run_renew` hands to `subprocess.run`; none when there is no command, or
when splitting it raises. -/
def CertMonitor.renewArgs (mon : CertMonitor) (openssl : Option OpensslConfig) (domain : String) :
    Option (List String) :=
  mon.command.bind fun template => split (renewCommand template openssl domain)

/-- Wherever the template has the domain, that is outside of quotes and not behind a backslash. -/
def Unquoted (template : String) : Prop :=
  ∀ before after, template = before ++ "{domain}" ++ after →
    (Mode.scan .between before.toList).Outside

/-- The template has the domain as a word of its own there. -/
structure WholeWord (template before after : String) : Prop where
  text : template = before ++ "{domain}" ++ after
  starts : Mode.scan .between before.toList = .between
  ends : ∀ c ∈ after.toList.head?, isSpace c = true

/-! ## The substitutions word by word -/

def placeholder : List Char := "{domain}".toList

/-- The substitution of the variables, on characters. -/
def fill (values : List (String × String)) (text : List Char) : List Char :=
  values.foldl (fun text (name, value) => replaceAll name.toList value.toList text) text

def Plain (text : String) : Prop := text.toList ≠ [] ∧ ∀ c ∈ text.toList, ordinary c = true

instance : DecidablePred Plain := fun text =>
  decidable_of_iff (text.toList ≠ [] ∧ text.toList.all ordinary = true) (by simp [Plain])

variable {mon : CertMonitor} {openssl : Option OpensslConfig} {template domain : String}
  {words : List String} {line piece : List Char} {pieces : List (List Char)}
  {values : List (String × String)}

theorem placeholder_plain : placeholder ≠ [] ∧ ∀ c ∈ placeholder, ordinary c = true :=
  ⟨by decide +kernel, List.all_eq_true.mp (by decide +kernel)⟩

theorem isDigit_ordinary {c : Char} (digit : c.isDigit = true) : ordinary c = true := by
  refine isSafe_ordinary ?_
  simp only [Char.isDigit, Bool.and_eq_true, decide_eq_true_eq] at digit
  have within : '0' ≤ c ∧ c ≤ '9' := digit
  simp [isSafe, within]

theorem toString_plain (n : Int) : Plain (toString n) := by
  have digits (k : ℕ) : Plain k.repr := by
    rw [Plain, Nat.toList_repr]
    exact ⟨Nat.toDigits_ne_nil, fun c mem =>
      isDigit_ordinary (Nat.isDigit_of_mem_toDigits (by decide) (by decide) mem)⟩
  rw [Int.toString_eq_repr, Int.repr_eq_if]
  split_ifs
  · exact digits _
  · have sign : ∀ c ∈ "-".toList, ordinary c = true := List.all_eq_true.mp (by decide)
    rw [Plain, String.toList_append]
    exact ⟨by simp, List.forall_mem_append.mpr ⟨sign, (digits _).2⟩⟩

/-- The names and the values of the variables have no blanks, quotes or backslashes. -/
theorem values_plain (openssl : OpensslConfig) :
    ∀ entry ∈ openssl.values, Plain entry.1 ∧ Plain entry.2 := by
  have names : Plain "{key_type}" ∧ Plain "{key_size}" ∧ Plain "{curve}" ∧ Plain "{sig_hash}" := by
    decide +kernel
  have keyType : Plain openssl.keyAlgorithm.text := by
    cases openssl.keyAlgorithm <;> decide +kernel
  have curve : Plain openssl.ecdsaCurve.text := by cases openssl.ecdsaCurve <;> decide +kernel
  have sigHash : Plain openssl.signatureHash.text := by
    cases openssl.signatureHash <;> decide +kernel
  simp only [OpensslConfig.values, List.forall_mem_cons]
  exact ⟨⟨names.1, keyType⟩, ⟨names.2.1, toString_plain _⟩, ⟨names.2.2.1, curve⟩,
    ⟨names.2.2.2, sigHash⟩, by simp⟩

theorem fill_cons (entry : String × String) (text : List Char) :
    fill (entry :: values) text = fill values (replaceAll entry.1.toList entry.2.toList text) :=
  rfl

theorem fill_wordwise (plain : ∀ entry ∈ values, Plain entry.1 ∧ Plain entry.2) :
    Wordwise (fill values) := by
  induction values with
  | nil => exact ⟨rfl, fun _ _ _ _ => rfl⟩
  | cons entry values ih =>
    obtain ⟨⟨name, _⟩, plain⟩ := List.forall_mem_cons.mp plain
    exact (ih plain).comp (wordwise_replaceAll name.1 name.2)

theorem replaceAll_word {old new : List Char} (nonempty : old ≠ []) (word : Word piece)
    (same : ∀ a b, piece = a ++ old ++ b → (Mode.scan .between a).Stays new ∧
      (Mode.scan .between a).scan new = (Mode.scan .between a).scan old) :
    Word (replaceAll old new piece) := by
  obtain ⟨stays, scan⟩ := replaceAll_scan nonempty same word.1
  exact ⟨stays, scan.trans word.2⟩

theorem fill_word (plain : ∀ entry ∈ values, Plain entry.1 ∧ Plain entry.2) (word : Word piece) :
    Word (fill values piece) := by
  induction values generalizing piece with
  | nil => exact word
  | cons entry values ih =>
    obtain ⟨⟨name, value⟩, plain⟩ := List.forall_mem_cons.mp plain
    refine ih plain (replaceAll_word name.1 word fun a b _ => ⟨stays_ordinary value.2, ?_⟩)
    rw [scan_ordinary value.1 value.2, scan_ordinary name.1 name.2]

theorem foldl_toList (cmd : String) :
    (values.foldl (fun cmd (name, value) => Python.replaceAll name value cmd) cmd).toList =
      fill values cmd.toList := by
  induction values generalizing cmd with
  | nil => rfl
  | cons entry values ih => rw [List.foldl_cons, ih, fill_cons, Python.replaceAll_toList]

/-- What becomes of a piece of the template. -/
def rewritten (openssl : Option OpensslConfig) (domain : String) (piece : List Char) : List Char :=
  fill (openssl.elim [] (·.values)) (replaceAll placeholder (quote domain).toList piece)

theorem renewCommand_toList :
    (renewCommand template openssl domain).toList = rewritten openssl domain template.toList := by
  unfold renewCommand rewritten
  cases openssl with
  | none => exact Python.replaceAll_toList _ _ _
  | some openssl =>
    rw [foldl_toList, Python.replaceAll_toList]
    rfl

theorem given_plain (openssl : Option OpensslConfig) :
    ∀ entry ∈ openssl.elim [] (·.values), Plain entry.1 ∧ Plain entry.2 := by
  cases openssl with
  | none => simp
  | some openssl => exact values_plain openssl

theorem rewritten_wordwise : Wordwise (rewritten openssl domain) :=
  (fill_wordwise (given_plain openssl)).comp
    (wordwise_replaceAll placeholder_plain.1 placeholder_plain.2)

theorem eq_around {text middle : String} {a b : List Char}
    (h : text.toList = a ++ middle.toList ++ b) :
    text = String.ofList a ++ middle ++ String.ofList b := by
  rw [← String.toList_inj, h]
  simp

/-- A piece has the domain where the template has it. -/
theorem outside_of_piece (unquoted : Unquoted template) (h : Words template.toList pieces)
    (mem : piece ∈ pieces) {a b : List Char} (eq : piece = a ++ placeholder ++ b) :
    (Mode.scan .between a).Outside := by
  obtain ⟨before, after, text, scan, -⟩ := h.mem mem
  have found : template.toList = (before ++ a) ++ placeholder ++ (b ++ after) := by
    rw [text, eq]
    simp only [List.append_assoc]
  have outside := unquoted _ _ (eq_around found)
  rwa [String.toList_ofList, scan_append, scan] at outside

theorem rewritten_word (unquoted : Unquoted template) (h : Words template.toList pieces)
    (mem : piece ∈ pieces) (word : Word piece) : Word (rewritten openssl domain piece) := by
  refine fill_word (given_plain openssl)
    (replaceAll_word placeholder_plain.1 word fun a b eq => ?_)
  have outside := outside_of_piece unquoted h mem eq
  obtain ⟨scan, stays, -⟩ := outside_quote outside domain
  refine ⟨stays, ?_⟩
  rw [scan, scan_ordinary placeholder_plain.1 placeholder_plain.2]
  rcases outside with mode | mode <;> rw [mode] <;> rfl

/-- The arguments are the template's pieces, rewritten one by one. -/
theorem renewArgs_eq (openssl : Option OpensslConfig) (domain : String)
    (command : mon.command = some template) (unquoted : Unquoted template)
    (h : Words template.toList pieces) : mon.renewArgs openssl domain =
      some (pieces.map fun piece =>
        String.ofList (Mode.value .between (rewritten openssl domain piece))) := by
  have words : Words (rewritten openssl domain template.toList)
      (pieces.map (rewritten openssl domain)) :=
    h.map rewritten_wordwise fun piece mem word => rewritten_word unquoted h mem word
  rw [CertMonitor.renewArgs, command, Option.bind_some, split, renewCommand_toList,
    readWords_of_words words]
  simp

theorem split_eq (h : Words template.toList pieces) :
    split template = some (pieces.map fun piece => String.ofList (Mode.value .between piece)) := by
  rw [split, readWords_of_words h]
  simp

/-- A word that is read without the placeholder is written without it. -/
theorem not_infix_of_value (unquoted : Unquoted template) (h : Words template.toList pieces)
    (mem : piece ∈ pieces)
    (absent : Python.contains (String.ofList (Mode.value .between piece)) "{domain}" = false) :
    ¬ placeholder <:+: piece := by
  rintro ⟨a, b, rfl⟩
  have outside := outside_of_piece unquoted h mem rfl
  simp only [Python.contains, decide_eq_false_iff_not, String.toList_ofList] at absent
  apply absent
  rw [value_append, value_append, value_ordinary outside placeholder_plain.2]
  exact ⟨_, _, rfl⟩

theorem rewritten_of_absent (absent : ¬ placeholder <:+: piece) :
    rewritten openssl domain piece = fill (openssl.elim [] (·.values)) piece := by
  rw [rewritten, replaceAll_of_not_infix absent]

theorem closed_of_split (splits : split template = some words) :
    (Mode.scan .between template.toList).Outside := by
  obtain ⟨_, read, -⟩ := Option.map_eq_some_iff.mp splits
  exact readWords_isSome.mp (Option.isSome_of_eq_some read)

theorem placeholder_word : Word placeholder :=
  ⟨stays_ordinary placeholder_plain.2, scan_ordinary placeholder_plain.1 placeholder_plain.2⟩

/-- A word of its own is one of the template's pieces. -/
theorem WholeWord.exists_words {before after : String} (whole : WholeWord template before after)
    (splits : split template = some words) :
    ∃ front back, Words before.toList front ∧
      Words template.toList (front ++ placeholder :: back) := by
  obtain ⟨front, frontWords⟩ := Shell.exists_words (.inl whole.starts)
  have text : template.toList = before.toList ++ (placeholder ++ after.toList) := by
    rw [whole.text, String.toList_append, String.toList_append, List.append_assoc]
    rfl
  have rest : ∃ back, Words (placeholder ++ after.toList) (placeholder :: back) := by
    cases tail : after.toList with
    | nil => exact ⟨[], by simpa using Words.last placeholder_word⟩
    | cons c tail' =>
      have space : isSpace c = true := whole.ends c (by simp [tail])
      have closed := closed_of_split splits
      rw [text, scan_append, whole.starts, scan_append, placeholder_word.2, tail, scan_cons,
        next_space (.inr rfl) space] at closed
      obtain ⟨back, backWords⟩ := Shell.exists_words closed
      exact ⟨back, .word placeholder_word space backWords⟩
  obtain ⟨back, words⟩ := rest
  exact ⟨front, back, frontWords, text ▸ frontWords.append whole.starts words⟩

/-- Without the `openssl` section, the placeholder on its own becomes the domain. -/
theorem value_rewritten_placeholder (domain : String) :
    Mode.value .between (rewritten none domain placeholder) = domain.toList := by
  obtain ⟨-, -, value⟩ := outside_quote (.inl rfl : Mode.Outside .between) domain
  rw [rewritten, replaceAll_self placeholder_plain.1]
  exact value

/-- Whatever the domains are, the command lines split into as many arguments as the template has
words, and those at which the template does not have the domain are the same. Without an `openssl`
section, where the template has the domain as a word of its own the argument is the domain. -/
theorem renewArgs_uninjected (mon : CertMonitor) (openssl : Option OpensslConfig)
    {template : String} {words : List String} (command : mon.command = some template)
    (splits : split template = some words) (unquoted : Unquoted template)
    (domain domain' : String) :
    ∃ args args' : List String, mon.renewArgs openssl domain = some args ∧
      mon.renewArgs openssl domain' = some args' ∧
      args.length = words.length ∧ args'.length = words.length ∧
      (∀ (i : ℕ) word, words[i]? = some word → Python.contains word "{domain}" = false →
        args[i]? = args'[i]?) ∧
      (openssl = none → ∀ before after, WholeWord template before after →
        ∃ front, split before = some front ∧ words[front.length]? = some "{domain}" ∧
          args[front.length]? = some domain) := by
  obtain ⟨pieces, h⟩ := Shell.exists_words (closed_of_split splits)
  obtain rfl := Option.some.inj ((split_eq h).symm.trans splits)
  refine ⟨_, _, renewArgs_eq openssl domain command unquoted h,
    renewArgs_eq openssl domain' command unquoted h, by simp, by simp, ?_, ?_⟩
  · intro i word found absent
    rw [List.getElem?_map] at found
    obtain ⟨piece, here, rfl⟩ := Option.map_eq_some_iff.mp found
    have absent := not_infix_of_value unquoted h (List.mem_of_getElem? here) absent
    simp only [List.getElem?_map, here, Option.map_some, rewritten_of_absent absent]
  · rintro rfl before after whole
    obtain ⟨front, back, frontWords, h'⟩ := whole.exists_words splits
    have here : (front ++ placeholder :: back)[front.length]? = some placeholder := by simp
    refine ⟨_, split_eq frontWords, ?_, ?_⟩
    · rw [Option.some.inj ((split_eq h).symm.trans (split_eq h')), List.length_map,
        List.getElem?_map, here, Option.map_some, value_ordinary (.inl rfl) placeholder_plain.2]
      exact congrArg some String.ofList_toList
    · have args := (renewArgs_eq none domain command unquoted h).symm.trans
        (renewArgs_eq none domain command unquoted h')
      rw [Option.some.inj args, List.length_map, List.getElem?_map, here, Option.map_some,
        value_rewritten_placeholder, String.ofList_toList]

/-- In the documented templates there is nothing to stand in. -/
theorem unquoted_of_plain
    (plain : template.toList.all (· ∉ [singleQuote, doubleQuote, backslash]) = true) :
    Unquoted template := by
  rintro before after rfl
  refine scan_outside (.inl rfl) fun c mem =>
    of_decide_eq_true (List.all_eq_true.mp plain c ?_)
  rw [String.toList_append, String.toList_append, List.append_assoc]
  exact List.mem_append_left _ mem

def documented : CertMonitor where
  config := some
    { renewCommand := some "certbot renew --cert-name {domain} --config-dir /data/letsencrypt" }
  scheduler := true

theorem renewArgs_uninjected_documented : ∃ args args' : List String,
    documented.renewArgs none "example.com; rm -rf '/'" = some args ∧
      documented.renewArgs none "example.com" = some args' ∧ args.length = 6 ∧
      args'.length = 6 ∧ args[1]? = args'[1]? ∧ args[3]? = some "example.com; rm -rf '/'" := by
  have command : documented.command =
      some "certbot renew --cert-name {domain} --config-dir /data/letsencrypt" := by decide +kernel
  have splits : split "certbot renew --cert-name {domain} --config-dir /data/letsencrypt" = some
      ["certbot", "renew", "--cert-name", "{domain}", "--config-dir", "/data/letsencrypt"] := by
    decide +kernel
  obtain ⟨args, args', run, run', length, length', same, whole⟩ :=
    renewArgs_uninjected documented none command splits (unquoted_of_plain (by decide +kernel))
      "example.com; rm -rf '/'" "example.com"
  obtain ⟨front, read, -, domain⟩ := whole rfl "certbot renew --cert-name "
    " --config-dir /data/letsencrypt"
    ⟨by decide +kernel, by decide +kernel, by
      rw [show " --config-dir /data/letsencrypt".toList.head? = some ' ' by decide +kernel]
      simp [isSpace]⟩
  have words : split "certbot renew --cert-name " = some ["certbot", "renew", "--cert-name"] := by
    decide +kernel
  obtain rfl := Option.some.inj (words.symm.trans read)
  exact ⟨args, args', run, run', length, length', same 1 "renew" rfl (by decide +kernel), domain⟩

end AcmeGitWebhook.Monitor
