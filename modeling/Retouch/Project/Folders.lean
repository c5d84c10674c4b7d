import Retouch.Files.Path

/-!
# Folders of the program

What the program keeps in a project lies in one folder: its settings, copies of files, the history and
notes of what it did.
-/
namespace Retouch.Project

def toolFolder (root : Files.Path) : Files.Path := root.child ".alara"

def settingsFile (root : Files.Path) : Files.Path := (toolFolder root).child "config.json"

def backupsFolder (root : Files.Path) : Files.Path := (toolFolder root).child "backups"

def historyFolder (root : Files.Path) : Files.Path := (toolFolder root).child "history"

def logsFolder (root : Files.Path) : Files.Path := (toolFolder root).child "logs"

/-- The folders, each before those in it. -/
def toolFolders (root : Files.Path) : List Files.Path :=
  [toolFolder root, backupsFolder root, historyFolder root, logsFolder root]

end Retouch.Project
