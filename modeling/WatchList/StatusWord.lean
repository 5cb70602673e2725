import WatchList.Vocabulary
/-!
# Status words

What a user may write for a status.  `Status.ofWord?` takes a code or an alias, in any casing and spacing, and nothing
else; `Status.ofWord` reads everything else as wanted.
-/
namespace WatchList
namespace Status

/-- The status of an alias that is already in small letters; only its spacing is free. -/
def ofAlias? (key : Text) : Option Status :=
  (Vocabulary.statusAliases.find? fun a => a.1 == key.collapsed).map Prod.snd

/-- The status a word stands for: one of the codes or aliases, in any casing. -/
def ofWord? (raw : Text) : Option Status :=
  let key := raw.trim.lowercase
  if key.isEmpty then none else (ofCode? key).or (ofAlias? key)

/-- The status a word is taken for: wanted, if it stands for none. -/
def ofWord (raw : Text) : Status := (ofWord? raw).getD .wanted

end Status
end WatchList
