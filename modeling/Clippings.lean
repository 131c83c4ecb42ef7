import Clippings.Main
import Clippings.Session
import Clippings.Storage.Change
import Clippings.Proofs.Content
import Clippings.Proofs.Extraction.Again
import Clippings.Proofs.Extraction.Listing
import Clippings.Proofs.Extraction.Turns
import Clippings.Proofs.Extraction.Unwritable
import Clippings.Proofs.Program.Accounts
import Clippings.Proofs.Program.SettingsFile
import Clippings.Proofs.Program.Roots
import Clippings.Proofs.Program.Journal
import Clippings.Proofs.Path.Last
import Clippings.Proofs.Extraction.Outputs
import Clippings.Proofs.Arguments
import Clippings.Proofs.Extraction.Missing
import Clippings.Proofs.Program.NoDocument
