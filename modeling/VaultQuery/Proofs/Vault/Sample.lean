import VaultQuery.Command.Basic

/-! # A small library

    Vaults, clauses and requests for the cases that accompany the general statements: a reading
    list in a folder and a book that is on it, a second list, an archive, and deadlines. -/

namespace VaultQuery.Sample

/-- A moment of the year 2024. -/
def moment : Instant :=
  ⟨⟨2024, 5, 17, by decide, by decide, by decide⟩, 37230, 5, by decide, by decide, by decide⟩

/-- A collection whose name is not its path. -/
def readingList : Document :=
  ⟨"lists/Reading.md", moment, moment, some (.ofList [("type", .text "collection")])⟩

/-- A book on the reading list. -/
def dune : Document :=
  ⟨"books/Dune.md", moment, moment, some (.ofList
    [("collection", .list [.text "[[Reading]]"]), ("status", .text "todo"),
      ("type", .text "book")])⟩

/-- Both, with tags and collections declared as lists. -/
def library : Vault :=
  (Vault.ofDocuments [readingList, dune]).declareAll [("collection", .list), ("tags", .list)]

/-- The library with types declared as numbers. -/
def catalogue : Vault := library.declareAll [("type", .number)]

/-- A document of the name of the reading list. -/
def namesake : Document := ⟨"Reading.md", moment, moment, none⟩

/-- A second collection, of which nothing is a member. -/
def favorites : Document :=
  ⟨"Favorites.md", moment, moment, some (.ofList [("type", .text "collection")])⟩

/-- A book and two collections. -/
def shelves : Vault :=
  (Vault.ofDocuments [readingList, dune, favorites]).declareAll [("collection", .list)]

/-- By status, the last first, then by type; status again changes nothing. -/
def byStatusAndType : List SortField :=
  [⟨.field "status", true⟩, ⟨.field "type", false⟩, ⟨.field "status", false⟩]

/-- A document without frontmatter. -/
def bare : Document := ⟨"A.md", moment, moment, none⟩

/-- A file in the root that is all extension. -/
def hidden : Document := ⟨".md", moment, moment, none⟩

/-- Such a file in a folder. -/
def hiddenAway : Document := ⟨"A/.md", moment, moment, none⟩

/-- Both, and a document of the name of the folder. -/
def attic : Vault := .ofDocuments [hidden, hiddenAway, bare]

/-- The leap second at the end of 2016, and a half more. -/
def leapSecond : Instant :=
  ⟨⟨2016, 12, 31, by decide, by decide, by decide⟩, 86399, 1500000000, by decide, by decide,
    by decide⟩

/-- A quarter of a second past noon before the year zero. -/
def longAgo : Instant :=
  ⟨⟨-44, 3, 15, by decide, by decide, by decide⟩, 43200, 250000000, by decide, by decide,
    by decide⟩

/-- A nanosecond of the year 12345. -/
def farAhead : Instant :=
  ⟨⟨12345, 6, 7, by decide, by decide, by decide⟩, 1, 1, by decide, by decide, by decide⟩

/-- A half, negative zero and `10 ^ 21`. -/
def measures : List Double :=
  [.ofBits 0x3FE0000000000000, .ofBits 0x8000000000000000, .ofBits 0x444B1AE4D6E2EF50]

/-- Documents with times, texts and values of every kind but dates. -/
def archive : Vault :=
  .ofDocuments [⟨"a \"b\"\n.md", leapSecond, longAgo,
      some (.ofList [("measures", .list [.list (measures.map .number), .null]),
        ("tab\t", .bool true), ("text", .text "ä\\")])⟩,
    ⟨"empty.md", farAhead, moment, some .empty⟩, ⟨"none.md", moment, farAhead, none⟩]

/-- A field declared for dates. -/
def deadlines : List (String × Kind) := [("due", .date)]

/-- The request for a document that is due on a day. -/
def dueOn (day : String) : List (Settings × Instant × Command) :=
  [(.default, moment, .newDocument ["due:eq:" ++ day] none "A")]

/-- A document whose rating is a text. -/
def rated (rating : String) : Document :=
  ⟨"A.md", moment, moment, some (.ofList [("rating", .text rating)])⟩

/-- The vault of that document, with ratings declared of a kind. -/
def ratings (rating : String) (kind : Kind) : Vault :=
  (Vault.ofDocuments [rated rating]).declareAll [("rating", kind)]

/-- A document with a title. -/
def titled (title : String) : Document :=
  ⟨"A.md", moment, moment, some (.ofList [("title", .text title)])⟩

/-- The text of so many lists inside each other. -/
def brackets (depth : Nat) : List Char := List.replicate depth '[' ++ List.replicate depth ']'

/-- An expression whose value is so many lists inside each other. -/
def nested (depth : Nat) : String := "a:eq:" ++ String.ofList (brackets depth)

/-- The request for a document with such a value. -/
def nesting (depth : Nat) : List (Settings × Instant × Command) :=
  [(.default, moment, .newDocument [nested depth] none "A")]

/-- Unread books on the list that is the context. -/
def unreadOnList : List Clause :=
  [⟨.field "status", .neq, .value (.text "done")⟩,
    ⟨.field "collection", .hasThis, .value .null⟩, ⟨.field "type", .eq, .value (.text "book")⟩]

/-- Books on the list that is the context and on a further one. -/
def booksOnLists : List Clause :=
  [⟨.field "collection", .hasThis, .value .null⟩,
    ⟨.field "collection", .hasAll, .value (.list [.text "[[Later]]"])⟩,
    ⟨.field "type", .eq, .value (.text "book")⟩]

/-- Books on the list that is the context. -/
def booksOnList : List Clause :=
  [⟨.field "type", .eq, .value (.text "book")⟩, ⟨.field "collection", .hasThis, .value .null⟩]

/-- What has a late status and is on the list that is the context. -/
def lateOnList : List Clause :=
  [⟨.field "status", .gt, .value (.text "zzz")⟩, ⟨.field "collection", .hasThis, .value .null⟩]

/-- Whatever is on the list that is the context. -/
def onList : List Clause := [⟨.field "collection", .hasThis, .value .null⟩]

end VaultQuery.Sample
